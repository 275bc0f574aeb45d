import FeatureFilter.Proofs.Syntax.Rules

/-!
# The height of phrases

How many phrases stand inside each other. The limit on nesting bounds it but for operators: every
operator of a chain like `1 + 1 + 1` holds the chain in front of it, and chains are no nesting. So
the height of an operand is at most the number of operators in its text and one more than its levels
(`Grammar.rises_isOperand`), and that of a condition grows with twice its levels
(`Grammar.rises_isCondition`).
-/

namespace FeatureFilter

open Span (nowhere)
open Category (Sequence Linked)

/-! ## Heights -/

mutual

/-- How many operands stand inside each other. -/
def Operand.height : Operand → Nat
  | .literal _ _ | .property _ _ | .openBound _ | .geometry _ _ _ => 1
  | .call _ _ args => Operand.heightAll args + 1
  | .arithmetic _ _ left right => max left.height right.height + 1
  | .interval _ start stop => max start.height stop.height + 1

def Operand.heightAll : List Operand → Nat
  | [] => 0
  | o :: os => max o.height (Operand.heightAll os)

end

mutual

def Condition.height : Condition → Nat
  | .any _ clauses | .all _ clauses => Condition.heightAll clauses + 1
  | .negation _ clause => clause.height + 1
  | .compare _ _ left right => max left.height right.height + 1
  | .between _ _ value low high => max value.height (max low.height high.height) + 1
  | .like _ _ value _ _ | .isNull _ _ value => value.height + 1
  | .inList _ _ value choices => max value.height (Operand.heightAll choices) + 1
  | .call _ _ args => Operand.heightAll args + 1

def Condition.heightAll : List Condition → Nat
  | [] => 0
  | c :: cs => max c.height (Condition.heightAll cs)

end

mutual

/-- The places of an operand add nothing to its height. -/
theorem Operand.height_bare : ∀ o : Operand, o.bare.height = o.height
  | .literal _ _ | .property _ _ | .openBound _ | .geometry _ _ _ => rfl
  | .call _ _ args => by rw [bare, height, height, Operand.heightAll_bareAll args]
  | .arithmetic _ _ left right => by
    rw [bare, height, height, Operand.height_bare left, Operand.height_bare right]
  | .interval _ start stop => by
    rw [bare, height, height, Operand.height_bare start, Operand.height_bare stop]

theorem Operand.heightAll_bareAll : ∀ os : List Operand, heightAll (bareAll os) = heightAll os
  | [] => rfl
  | o :: os => by
    rw [bareAll, heightAll, heightAll, Operand.height_bare o, Operand.heightAll_bareAll os]

end

mutual

theorem Condition.height_bare : ∀ c : Condition, c.bare.height = c.height
  | .any _ clauses | .all _ clauses => by
    rw [bare, height, height, Condition.heightAll_bareClauses clauses]
  | .negation _ clause => by rw [bare, height, height, Condition.height_bare clause]
  | .compare _ _ left right => by
    rw [bare, height, height, left.height_bare, right.height_bare]
  | .between _ _ value low high => by
    rw [bare, height, height, value.height_bare, low.height_bare, high.height_bare]
  | .like _ _ value _ _ | .isNull _ _ value => by rw [bare, height, height, value.height_bare]
  | .inList _ _ value choices => by
    rw [bare, height, height, value.height_bare, Operand.heightAll_bareAll]
  | .call _ _ args => by rw [bare, height, height, Operand.heightAll_bareAll]

theorem Condition.heightAll_bareClauses :
    ∀ cs : List Condition, heightAll (bareClauses cs) = heightAll cs
  | [] => rfl
  | c :: cs => by
    rw [bareClauses, heightAll, heightAll, Condition.height_bare c,
      Condition.heightAll_bareClauses cs]

end

/-! ## Operators -/

def Token.isOperator (t : Token) : Bool :=
  (Operand.sumOp? t.kind).isSome || (Operand.productOp? t.kind).isSome

def operators (ts : List Token) : Nat := ts.countP Token.isOperator

theorem operators_append (ts us : List Token) :
    operators (ts ++ us) = operators ts + operators us :=
  List.countP_append

theorem operators_cons_le (t : Token) (ts : List Token) : operators ts ≤ operators (t :: ts) := by
  rw [operators, operators, List.countP_cons]
  exact Nat.le_add_right _ _

theorem operators_cons_of_isOperator {t : Token} (h : t.isOperator = true) (ts : List Token) :
    operators (t :: ts) = operators ts + 1 := by
  rw [operators, operators, List.countP_cons, if_pos h]

theorem operators_le_left (ts us : List Token) : operators ts ≤ operators (ts ++ us) := by
  rw [operators_append]
  exact Nat.le_add_right _ _

theorem operators_le_right (ts us : List Token) : operators us ≤ operators (ts ++ us) := by
  rw [operators_append]
  exact Nat.le_add_left _ _

/-! ## How high phrases rise -/

namespace Category

variable {α β γ : Type} {height : α → Nat} {k : Nat} {item : Category α}

/-- What the phrases of the category measure, but for the operators among their tokens. -/
def Rises (height : α → Nat) (k : Nat) (item : Category α) : Prop :=
  ∀ ⦃ts a⦄, item ts a → height a ≤ operators ts + k

theorem Rises.mono {k' : Nat} (h : item.Rises height k) (hk : k ≤ k') : item.Rises height k' :=
  fun _ _ ha => Nat.le_trans (h ha) (Nat.add_le_add_left hk _)

/-- Items that are linked to others. -/
theorem Rises.linked {link? : TokenKind → Option β} (hitem : item.Rises height k) {us : List Token}
    {xs : List (β × α)} (h : Linked link? item us xs) :
    ∀ a ∈ xs.map (·.2), height a ≤ operators us + k := by
  induction h with
  | nil => exact fun a ha => absurd ha List.not_mem_nil
  | @cons t ts us b a xs _ head _ ih =>
    have hts := operators_le_left ts us
    have hus := operators_le_right ts us
    have ht := operators_cons_le t (ts ++ us)
    refine List.forall_mem_cons.2 ⟨?_, fun a' ha' => ?_⟩
    · have : height a ≤ operators ts + k := hitem head
      show height a ≤ _
      omega
    · have := ih a' ha'
      omega

theorem Rises.items {link? : TokenKind → Option β} {build : α → List (β × α) → γ}
    (hitem : item.Rises height k) {ts : List Token} {c : γ} (h : Sequence link? item build ts c) :
    ∃ a xs, c = build a xs ∧ ∀ a' ∈ a :: xs.map (·.2), height a' ≤ operators ts + k := by
  obtain ⟨head, tail⟩ := h
  refine ⟨_, _, rfl, List.forall_mem_cons.2 ⟨?_, fun a ha => ?_⟩⟩
  · exact Nat.le_trans (hitem head) (Nat.add_le_add_right (operators_le_left _ _) k)
  · exact Nat.le_trans (hitem.linked tail a ha) (Nat.add_le_add_right (operators_le_right _ _) k)

end Category

theorem Operand.heightAll_le {k : Nat} {os : List Operand} (h : ∀ o ∈ os, o.height ≤ k) :
    heightAll os ≤ k := by
  induction os with
  | nil => exact Nat.zero_le k
  | cons o os ih =>
    obtain ⟨ho, hos⟩ := List.forall_mem_cons.1 h
    exact Nat.max_le.2 ⟨ho, ih hos⟩

theorem Condition.heightAll_le {k : Nat} {cs : List Condition} (h : ∀ c ∈ cs, c.height ≤ k) :
    heightAll cs ≤ k := by
  induction cs with
  | nil => exact Nat.zero_le k
  | cons c cs ih =>
    obtain ⟨hc, hcs⟩ := List.forall_mem_cons.1 h
    exact Nat.max_le.2 ⟨hc, ih hcs⟩

namespace Grammar

variable {g : Grammar} {k n : Nat} {item operand : Category Operand}
  {inner : Option (Category Operand)} {clause : Category Condition}

/-! ## Operands -/

/-- Every operator of a chain holds the chain in front of it, and is itself among the tokens. -/
theorem height_linked {op? : TokenKind → Option ArithmeticOp}
    (hop : ∀ t : Token, (op? t.kind).isSome = true → t.isOperator = true)
    (hitem : item.Rises Operand.height k) {us : List Token} {xs : List (ArithmeticOp × Operand)}
    (h : Linked op? item us xs) {o : Operand} {m : Nat} (ho : o.height ≤ m + k) :
    (xs.foldl (fun left link => Operand.arithmetic nowhere link.1 left link.2) o).height ≤
      m + operators us + k := by
  induction h generalizing o m with
  | nil => exact ho
  | @cons t ts us op a xs link head _ ih =>
    have ht := operators_cons_of_isOperator (hop t (by rw [link]; rfl)) (ts ++ us)
    have ha := hitem head
    have hnext : (Operand.arithmetic nowhere op o a).height ≤ m + operators ts + 1 + k := by
      rw [Operand.height]
      omega
    refine Nat.le_trans (ih hnext) ?_
    rw [ht, operators_append]
    omega

theorem rises_operators {op? : TokenKind → Option ArithmeticOp}
    (hop : ∀ t : Token, (op? t.kind).isSome = true → t.isOperator = true)
    (hitem : item.Rises Operand.height k) : (Operators op? item).Rises Operand.height k := by
  rintro _ _ ⟨head, tail⟩
  rw [operators_append]
  exact height_linked hop hitem tail (hitem head)

theorem rises_sum (hitem : item.Rises Operand.height k) : (Sum item).Rises Operand.height k := by
  refine rises_operators (fun t h => ?_) (rises_operators (fun t h => ?_) hitem)
  · rw [Token.isOperator, h, Bool.true_or]
  · rw [Token.isOperator, h, Bool.or_true]

theorem rises_commaList (hitem : item.Rises Operand.height k) :
    item.CommaList.Rises Operand.heightAll k := by
  intro ts os h
  obtain ⟨o, xs, rfl, hall⟩ := hitem.items h
  exact Operand.heightAll_le hall

theorem rises_bound (hitem : item.Rises Operand.height (k + 1)) :
    (Bound g item).Rises Operand.height (k + 1) := by
  intro ts o h
  cases h with
  | string _ ho =>
    have hone : o.height = 1 := by
      unfold stringBound? at ho
      split at ho
      · cases ho
        rfl
      · split at ho
        · cases ho
          rfl
        · split at ho
          · cases ho
            rfl
          · cases ho
    omega
  | operand h _ => exact hitem h

/-- Operands without a sign or an operator rise one above those inside them. -/
theorem rises_primary
    (hinner : ∀ item, inner = some item → ∃ m, k = m + 1 ∧ item.Rises Operand.height (m + 1)) :
    (Primary g inner).Rises Operand.height (k + 1) := by
  have hleaf {ts : List Token} {o : Operand} (h : o.height = 1) :
      o.height ≤ operators ts + (k + 1) := by
    omega
  intro ts o h
  cases h with
  | number _ _ => exact hleaf rfl
  | string _ => exact hleaf rfl
  | boolean _ _ => exact hleaf rfl
  | @group t t' ts m o item _ level h _ =>
    obtain ⟨m, rfl, hitem⟩ := hinner _ level
    have ht := operators_cons_le t (ts ++ [t'])
    have hts := operators_le_left ts [t']
    have := hitem h
    omega
  | quoted _ => exact hleaf rfl
  | word _ => exact hleaf rfl
  | callEmpty _ _ _ _ _ => exact hleaf rfl
  | @call t p p' ts name args item _ _ _ level h _ =>
    obtain ⟨m, rfl, hitem⟩ := hinner _ level
    have ht := operators_cons_le t (p :: (ts ++ [p']))
    have hp := operators_cons_le p (ts ++ [p'])
    have hts := operators_le_left ts [p']
    have := rises_commaList hitem h
    rw [Operand.height]
    omega
  | envelope _ _ _ _ _ _ _ _ _ _ _ => exact hleaf rfl
  | date _ _ _ _ _ _ => exact hleaf rfl
  | timestamp _ _ _ _ _ _ => exact hleaf rfl
  | @interval t p c p' as bs word a b item _ _ _ level ha _ hb _ =>
    obtain ⟨m, rfl, hitem⟩ := hinner _ level
    have ht := operators_cons_le t (p :: (as ++ c :: (bs ++ [p'])))
    have hp := operators_cons_le p (as ++ c :: (bs ++ [p']))
    have has := operators_append as (c :: (bs ++ [p']))
    have hc := operators_cons_le c (bs ++ [p'])
    have hbs := operators_le_left bs [p']
    have := rises_bound hitem ha
    have := rises_bound hitem hb
    rw [Operand.height]
    omega
  | geometry _ => exact hleaf rfl
  | srid _ _ _ _ _ _ _ => exact hleaf rfl

theorem rises_factor {below : Option (Category Operand)}
    (hbelow : ∀ factor, below = some factor → ∃ m, k = m + 1 ∧
      factor.Rises Operand.height (m + 1)) :
    (Factor g below).Rises Operand.height (k + 1) := by
  intro ts o h
  cases h with
  | primary h =>
    refine rises_primary (fun item hitem => ?_) h
    obtain ⟨factor, hfactor, rfl⟩ := Option.map_eq_some_iff.1 hitem
    obtain ⟨m, hm, hs⟩ := hbelow factor hfactor
    exact ⟨m, hm, rises_sum hs⟩
  | number _ _ _ =>
    rw [Operand.height]
    omega
  | @signed s ts negative o factor _ _ level h =>
    obtain ⟨m, rfl, hfactor⟩ := hbelow _ level
    have ht := operators_cons_le s ts
    have := hfactor h
    cases negative with
    | false =>
      show o.height ≤ _
      omega
    | true =>
      show max 1 o.height + 1 ≤ _
      omega

theorem rises_isFactor (g : Grammar) (n : Nat) : (g.IsFactor n).Rises Operand.height (n + 1) := by
  induction n with
  | zero =>
    refine rises_factor fun factor h => ?_
    cases h
  | succ n ih =>
    refine rises_factor fun factor h => ?_
    cases h
    exact ⟨n, rfl, ih⟩

/-- An operand with `n` levels rises to `n + 1`, but for its operators. -/
theorem rises_isOperand (g : Grammar) (n : Nat) : (g.IsOperand n).Rises Operand.height (n + 1) :=
  rises_sum (rises_isFactor g n)

/-! ## Conditions -/

theorem height_said (hoperand : operand.Rises Operand.height k)
    (hinner : ∀ item, inner = some item → item.Rises Operand.height k) {x : Operand} {m : Nat}
    (hx : x.height ≤ m + k) {ts : List Token} {c : Condition} (h : Said g operand inner x ts c) :
    c.height ≤ m + operators ts + (k + 1) := by
  cases h with
  | @compare t ts op y _ hy =>
    have ht := operators_cons_le t ts
    have := hoperand hy
    rw [Condition.height]
    omega
  | @between t t' ns ls hs negated l h _ _ hl _ hh =>
    have hns := operators_le_right ns (t :: (ls ++ t' :: hs))
    have ht := operators_cons_le t (ls ++ t' :: hs)
    have hls := operators_append ls (t' :: hs)
    have ht' := operators_cons_le t' hs
    have := hoperand hl
    have := hoperand hh
    rw [Condition.height]
    omega
  | like _ _ _ =>
    rw [Condition.height]
    omega
  | ilike _ _ _ _ _ =>
    rw [Condition.height]
    omega
  | isNull _ _ _ =>
    rw [Condition.height]
    omega
  | @inList t p p' ns cs negated choices item _ _ _ level hcs _ =>
    have hns := operators_le_right ns (t :: p :: (cs ++ [p']))
    have ht := operators_cons_le t (p :: (cs ++ [p']))
    have hp := operators_cons_le p (cs ++ [p'])
    have hts := operators_le_left cs [p']
    have := rises_commaList (hinner _ level) hcs
    rw [Condition.height]
    omega
  | call hxc =>
    subst hxc
    rw [Operand.height] at hx
    rw [Condition.height]
    omega

theorem rises_predicate (hoperand : operand.Rises Operand.height k)
    (hinner : ∀ item, inner = some item → item.Rises Operand.height k) :
    (Predicate g operand inner).Rises Condition.height (k + 1) := by
  rintro _ _ ⟨hx, said, -⟩
  rw [operators_append]
  exact height_said hoperand hinner (hoperand hx) said

theorem rises_clauses {keyword : Keyword} {join : Span → List Condition → Condition}
    (hjoin : ∀ cs, (join nowhere cs).height = Condition.heightAll cs + 1)
    (hclause : clause.Rises Condition.height k) :
    (Clauses keyword join clause).Rises Condition.height (k + 1) := by
  intro ts c h
  obtain ⟨head, xs, rfl, hall⟩ := hclause.items h
  split
  · exact Nat.le_trans (hall head (List.mem_cons_self ..)) (Nat.le_succ _)
  · rw [hjoin]
    exact Nat.succ_le_succ (Condition.heightAll_le hall)

theorem rises_disjunction (hclause : clause.Rises Condition.height k) :
    (Disjunction clause).Rises Condition.height (k + 2) :=
  rises_clauses (fun _ => by rw [Condition.height])
    (rises_clauses (fun _ => by rw [Condition.height]) hclause)

theorem rises_negation {below : Option (Category Condition)}
    (hoperand : operand.Rises Operand.height (n + 1))
    (hinner : ∀ item, inner = some item → item.Rises Operand.height (n + 1))
    (hbelow : ∀ negation, below = some negation → ∃ m, n = m + 1 ∧
      negation.Rises Condition.height (2 * m + 2)) :
    (Negation g operand inner below).Rises Condition.height (2 * n + 2) := by
  intro ts c h
  cases h with
  | @not t ts c negation _ level h =>
    obtain ⟨m, rfl, hneg⟩ := hbelow _ level
    have ht := operators_cons_le t ts
    have := hneg h
    rw [Condition.height]
    omega
  | @group t t' ts m c negation _ level h _ =>
    obtain ⟨m, rfl, hneg⟩ := hbelow _ level
    have ht := operators_cons_le t (ts ++ [t'])
    have hts := operators_le_left ts [t']
    have := rises_disjunction hneg h
    omega
  | predicate h =>
    have := rises_predicate hoperand hinner h
    omega

theorem rises_isNegation (g : Grammar) (n : Nat) :
    (g.IsNegation n).Rises Condition.height (2 * n + 2) := by
  induction n with
  | zero =>
    refine rises_negation (rises_isOperand g 0) (fun item h => ?_) fun negation h => ?_
    · cases h
    · cases h
  | succ n ih =>
    refine rises_negation (rises_isOperand g (n + 1)) (fun item h => ?_) fun negation h => ?_
    · cases h
      exact (rises_isOperand g n).mono (Nat.le_succ _)
    · cases h
      exact ⟨n, rfl, ih⟩

/-- A condition with `n` levels rises to `2 * n + 4`, but for its operators. -/
theorem rises_isCondition (g : Grammar) (n : Nat) :
    (g.IsCondition n).Rises Condition.height (2 * n + 4) :=
  rises_disjunction (rises_isNegation g n)

end Grammar

end FeatureFilter
