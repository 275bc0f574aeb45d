import FeatureFilter.Proofs.Compiler.Permissive
import FeatureFilter.Proofs.Syntax.Spelling

/-!
# Texts put together

Texts that are compiled on their own are compiled to the same trees as parts of a longer text, and
the longer text to the tree that its form says, with two more levels of nesting. `Composed` and
`ComposedValue` are the forms.
-/

namespace FeatureFilter

open Span (nowhere)
open Condition (negatedIf)
open Grammar (Spells)

namespace Compiler

/-- The compiler with another limit on nesting. -/
def withLevels (c : Compiler) (n : Nat) : Compiler :=
  { c with dialect := { c.dialect with maxDepth := n } }

theorem permits_withLevels {c : Compiler} {n : Nat} (h : c.dialect.maxDepth ≤ n) :
    (c.withLevels n).Permits c where
  catalog := rfl
  readGeometry := rfl
  colors := rfl
  extensions := fun _ h => h
  levels := h
  rejected := fun _ h => h
  allowUnknown := fun h => h

/-! ## Forms of texts -/

/-- `NOT` where it is asked for, and a blank in front of it. -/
def notText (negated : Bool) : String := if negated then " NOT" else ""

/-- A filter text that is put together from texts that are compiled, and its tree. -/
inductive Composed (c : Compiler) : String → Filter → Prop where
  | compare {E F : String} {e e' : Expression} (op : ComparisonOp) (hE : c.expression E = .ok e)
    (hF : c.expression F = .ok e') :
    Composed c (E ++ " " ++ op.symbol ++ " " ++ F) (.compare op e e')
  | between {E F G : String} {e e' e'' : Expression} (negated : Bool) (hE : c.expression E = .ok e)
    (hF : c.expression F = .ok e') (hG : c.expression G = .ok e'') :
    Composed c (E ++ notText negated ++ " BETWEEN " ++ F ++ " AND " ++ G)
      (negatedIf negated (.between e e' e''))
  | inList {E : String} {e : Expression} {Cs : List String} {cs : List Expression} (negated : Bool)
    (hne : Cs ≠ []) (hE : c.expression E = .ok e)
    (hCs : List.Forall₂ (fun C choice => c.expression C = .ok choice) Cs cs) :
    Composed c (E ++ notText negated ++ " IN (" ++ joined ", " Cs ++ ")")
      (negatedIf negated (.any (cs.map (.compare .eq e))))
  | like {E : String} {e : Expression} (negated : Bool) (pattern : String)
    (hE : c.expression E = .ok e) :
    Composed c (E ++ notText negated ++ " LIKE " ++ stringText pattern)
      (negatedIf negated (.like e pattern true))
  | isNull {E : String} {e : Expression} (negated : Bool) (hE : c.expression E = .ok e) :
    Composed c (E ++ " IS" ++ notText negated ++ " NULL") (negatedIf negated (.isNull e))
  | all {Ps : List String} {fs : List Filter} (htwo : 2 ≤ Ps.length)
    (hPs : List.Forall₂ (fun P f => c.filter P = .ok f) Ps fs) :
    Composed c (joined " AND " (Ps.map grouped)) (.all fs)
  | any {Ps : List String} {fs : List Filter} (htwo : 2 ≤ Ps.length)
    (hPs : List.Forall₂ (fun P f => c.filter P = .ok f) Ps fs) :
    Composed c (joined " OR " (Ps.map grouped)) (.any fs)
  | negation {P : String} {f : Filter} (hP : c.filter P = .ok f) :
    Composed c ("NOT " ++ grouped P) (.negation f)

/-- An expression text that is put together from texts that are compiled, and its tree. -/
inductive ComposedValue (c : Compiler) : String → Expression → Prop where
  | arithmetic {E F : String} {e e' : Expression} (op : ArithmeticOp)
    (hE : c.expression E = .ok e) (hF : c.expression F = .ok e') :
    ComposedValue c (grouped E ++ " " ++ op.symbol ++ " " ++ grouped F) (.arithmetic op e e')

variable {c' c : Compiler} {source E F G P Q : String} {e e' e'' : Expression} {f f' : Filter}
  {n : Nat}

/-! ## Their characters -/

theorem toList_notText (negated : Bool) :
    (notText negated).toList = Grammar.Spells.notChars negated := by
  cases negated <;> rfl

theorem toList_grouped (s : String) : (grouped s).toList = '(' :: (s.toList ++ [')']) := by
  simp [grouped]

/-! ## Parts of a text -/

/-- A text that is read as an operand with a meaning spells the operand, wherever it stands. -/
theorem spells_phrase (hc : c'.Permits c) (source : String) (hn : c.dialect.maxDepth ≤ n)
    {x : Operand} (hE : c.operand E = .ok x) (hx : x.bare.HasMeaning c.vocabulary) :
    (c'.grammar source).Spells E.toList ((c'.grammar source).IsOperand n · x.bare) := by
  obtain ⟨tokens, htokens, hread⟩ := phrase_eq_ok.1 hE
  obtain ⟨ts, p, rfl, hts⟩ := tokenize_finish htokens
  have ho := (Grammar.operand_iff hts (Token.kind_finishAt p)).1 ⟨x, hread, rfl⟩
  exact Spells.of_tokenize htokens fun hsource hm => (hc.widens hsource).isOperand hn hm hx ho

/-- Where timestamps are read in the same way it need not have a meaning. -/
theorem spells_same (hc : c'.Permits c)
    (hnaive : c'.dialect.allows .naiveTimestamps = c.dialect.allows .naiveTimestamps)
    (source : String) (hn : c.dialect.maxDepth ≤ n) {x : Operand} (hE : c.operand E = .ok x) :
    (c'.grammar source).Spells E.toList ((c'.grammar source).IsOperand n · x.bare) := by
  obtain ⟨tokens, htokens, hread⟩ := phrase_eq_ok.1 hE
  obtain ⟨ts, p, rfl, hts⟩ := tokenize_finish htokens
  have ho := (Grammar.operand_iff hts (Token.kind_finishAt p)).1 ⟨x, hread, rfl⟩
  exact Spells.of_tokenize htokens fun hsource hm =>
    (hc.widens hsource).isOperand_same hnaive hn hm trivial ho

/-- A text that is compiled to an expression spells an operand that denotes it. -/
theorem spells_operand (hc : c'.Permits c) (source : String) (hn : c.dialect.maxDepth ≤ n)
    (hE : c.expression E = .ok e) :
    ∃ x, x.Denotes c.vocabulary e ∧
      (c'.grammar source).Spells E.toList ((c'.grammar source).IsOperand n · x) := by
  obtain ⟨x, hx, hd⟩ := expression_eq_ok.1 hE
  have hd' : x.bare.Denotes c.vocabulary e := Operand.denotes_bare.2 hd
  exact ⟨x.bare, hd', spells_phrase hc source hn hx (.inl ⟨e, hd'⟩)⟩

/-- A text that is compiled to a filter spells a condition that denotes it. -/
theorem spells_condition (hc : c'.Permits c) (source : String) (hn : c.dialect.maxDepth ≤ n)
    (hP : c.filter P = .ok f) :
    ∃ b, b.Denotes c.vocabulary f ∧
      (c'.grammar source).Spells P.toList ((c'.grammar source).IsCondition n · b) := by
  obtain ⟨ts, p, b, htokens, hb, hd⟩ := filter_iff.1 hP
  exact ⟨b, hd, Spells.of_tokenize htokens fun hsource hm =>
    (hc.widens hsource).isCondition hn hm ⟨f, hd⟩ hb⟩

/-- In parentheses it spells the same condition, with a level more. -/
theorem spells_group (hc : c'.Permits c) (source : String) (hn : c.dialect.maxDepth ≤ n)
    (hP : c.filter P = .ok f) :
    ∃ b, b.Denotes c.vocabulary f ∧
      (c'.grammar source).Spells (grouped P).toList
        ((c'.grammar source).IsNegation (n + 1) · b) := by
  obtain ⟨b, hd, hb⟩ := spells_condition hc source hn hP
  rw [toList_grouped]
  exact ⟨b, hd, hb.groupedCondition⟩

/-- In parentheses it spells the same operand, with a level more. -/
theorem spells_factor (hc : c'.Permits c) (source : String) (hn : c.dialect.maxDepth ≤ n)
    (hE : c.expression E = .ok e) :
    ∃ x, x.Denotes c.vocabulary e ∧
      (c'.grammar source).Spells (grouped E).toList ((c'.grammar source).IsFactor (n + 1) · x) := by
  obtain ⟨x, hd, hx⟩ := spells_operand hc source hn hE
  rw [toList_grouped]
  exact ⟨x, hd, hx.groupedOperand⟩

theorem filter_of_spells {b : Condition}
    (h : (c.grammar source).Spells source.toList
      ((c.grammar source).IsCondition c.dialect.maxDepth · b))
    (hd : b.Denotes c.vocabulary f) : c.filter source = .ok f := by
  obtain ⟨ts, p, htokens, hb⟩ := Grammar.Spells.tokenize h
  exact filter_iff.2 ⟨ts, p, b, htokens, hb, hd⟩

theorem expression_of_spells {x : Operand}
    (h : (c.grammar source).Spells source.toList
      ((c.grammar source).IsOperand c.dialect.maxDepth · x))
    (hd : x.Denotes c.vocabulary e) : c.expression source = .ok e := by
  obtain ⟨ts, p, htokens, hx⟩ := Grammar.Spells.tokenize h
  exact expression_iff.2 ⟨ts, p, x, htokens, hx, hd⟩

/-- What holds of single items holds of lists of them. -/
theorem forall₂_exists {α β γ : Type} {R : α → β → Prop} {S : γ → β → Prop} {T : α → γ → Prop}
    (h : ∀ a b, R a b → ∃ c, S c b ∧ T a c) {as : List α} {bs : List β}
    (hab : List.Forall₂ R as bs) : ∃ cs, List.Forall₂ S cs bs ∧ List.Forall₂ T as cs := by
  induction hab with
  | nil => exact ⟨[], .nil, .nil⟩
  | cons hab _ ih =>
    obtain ⟨c, hc, hac⟩ := h _ _ hab
    obtain ⟨cs, hcs, hacs⟩ := ih
    exact ⟨c :: cs, .cons hc hcs, .cons hac hacs⟩

/-! ## Whole texts -/

/-- A value and what is said about it, as a whole text. -/
theorem filter_of_tail {b : Condition} {x : Operand} {cs : List Char} (hc : c.withLevels n = c')
    (hx : (c'.grammar source).Spells E.toList ((c'.grammar source).IsOperand n · x))
    (hstop : Stops cs)
    (h : (c'.grammar source).Spells cs (Spells.Tail (c'.grammar source)
      ((c'.grammar source).IsOperand n)
      (Category.below (c'.grammar source).IsOperand n) x b))
    (hsource : source.toList = E.toList ++ cs) (hd : b.Denotes c.vocabulary f) :
    c'.filter source = .ok f := by
  subst hc
  have hp := Spells.predicate hx hstop h
  rw [← hsource] at hp
  refine filter_of_spells (hp.imp fun ts hts => ?_) hd
  exact Grammar.Disjunction.single (Grammar.isNegation_eq _ n ▸ .predicate hts)

theorem spells_chain {g : Grammar} {item : Category Condition} {v : Vocabulary} {k : Keyword}
    {join : Span → List Condition → Condition} {separator : String} {Ps : List String}
    {fs : List Filter} (hseparator : separator.toList = ' ' :: (k.text.toList ++ [' ']))
    (hitem : ∀ P f, c.filter P = .ok f →
      ∃ b, b.Denotes v f ∧ g.Spells (grouped P).toList (item · b))
    (htwo : 2 ≤ Ps.length) (hPs : List.Forall₂ (fun P f => c.filter P = .ok f) Ps fs) :
    ∃ bs, List.Forall₂ (Condition.Denotes v) bs fs ∧
      g.Spells (joined separator (Ps.map grouped)).toList
        (Grammar.Clauses k join item · (join nowhere bs)) := by
  obtain ⟨bs, hds, hbs⟩ := forall₂_exists hitem hPs
  refine ⟨bs, hds, ?_⟩
  obtain _ | ⟨hb, hbs⟩ := hbs
  · cases htwo
  · obtain _ | ⟨hb', hbs⟩ := hbs
    · cases Nat.le_of_succ_le_succ htwo
    · have hs := Spells.clauses k join (List.cons_ne_nil _ _) hb
        (List.forall₂_map_left_iff.2 (List.forall₂_map_left_iff.2 (.cons hb' hbs)))
      rw [List.map_cons, toList_joined_cons, hseparator]
      simpa using hs

/-- Each form of a filter text is compiled to its tree, with two more levels. -/
theorem filter_of_composed (h : c.Composed source f) :
    (c.withLevels (c.dialect.maxDepth + 2)).filter source = .ok f := by
  have hn : c.dialect.maxDepth ≤ c.dialect.maxDepth + 2 := Nat.le_add_right _ _
  have hc := permits_withLevels hn
  have hoperand {n : Nat} (hn : c.dialect.maxDepth ≤ n) (E : String) (e : Expression) :=
    spells_operand (E := E) (e := e) hc source hn
  have hgroup {n : Nat} (hn : c.dialect.maxDepth ≤ n) (P : String) (f : Filter) :=
    spells_group (P := P) (f := f) hc source hn
  cases h with
  | compare op hE hF =>
    obtain ⟨x, hdx, hx⟩ := hoperand hn _ _ hE
    obtain ⟨y, hdy, hy⟩ := hoperand hn _ _ hF
    refine filter_of_tail rfl hx (Spells.stops_blank _) (Spells.compare op hy) ?_
      (Condition.denotes_compare.2 ⟨_, hdx, _, hdy, rfl⟩)
    simp [op.toList_symbol]
  | between negated hE hF hG =>
    obtain ⟨x, hdx, hx⟩ := hoperand hn _ _ hE
    obtain ⟨y, hdy, hy⟩ := hoperand hn _ _ hF
    obtain ⟨z, hdz, hz⟩ := hoperand hn _ _ hG
    refine filter_of_tail rfl hx ?_ (Spells.between negated hy hz) ?_
      (Condition.denotes_between.2 ⟨_, hdx, _, hdy, _, hdz, rfl⟩)
    · cases negated <;> exact Spells.stops_blank _
    · simp [toList_notText, Keyword.text]
  | inList negated hne hE hCs =>
    obtain ⟨x, hdx, hx⟩ := hoperand hn _ _ hE
    obtain ⟨ys, hds, hys⟩ := forall₂_exists (hoperand (Nat.le_succ _)) hCs
    obtain _ | ⟨hy, hys⟩ := hys
    · exact absurd rfl hne
    · have hlist := hy.commaList (List.forall₂_map_left_iff.2 hys)
      refine filter_of_tail rfl hx ?_ (Spells.inList negated hlist) ?_
        (Condition.denotes_inList.2 ⟨_, hdx, _, hds, rfl⟩)
      · cases negated <;> exact Spells.stops_blank _
      · simp [toList_notText, toList_joined_cons, Keyword.text]
  | like negated pattern hE =>
    obtain ⟨x, hdx, hx⟩ := hoperand hn _ _ hE
    refine filter_of_tail rfl hx ?_ (Spells.like negated pattern) ?_
      (Condition.denotes_like.2 ⟨_, hdx, rfl⟩)
    · cases negated <;> exact Spells.stops_blank _
    · simp [toList_notText, Keyword.text]
  | isNull negated hE =>
    obtain ⟨x, hdx, hx⟩ := hoperand hn _ _ hE
    refine filter_of_tail rfl hx (Spells.stops_blank _) (Spells.isNull negated) ?_
      (Condition.denotes_isNull.2 ⟨_, hdx, rfl⟩)
    simp [toList_notText, Keyword.text]
  | all htwo hPs =>
    have hand : " AND ".toList = ' ' :: (Keyword.and.text.toList ++ [' ']) := rfl
    obtain ⟨bs, hds, hs⟩ := spells_chain hand (hgroup (Nat.le_succ _)) htwo hPs
    exact filter_of_spells (hs.imp fun _ => Category.Sequence.single)
      (Condition.denotes_all.2 ⟨_, hds, rfl⟩)
  | any htwo hPs =>
    have hor : " OR ".toList = ' ' :: (Keyword.or.text.toList ++ [' ']) := rfl
    obtain ⟨bs, hds, hs⟩ := spells_chain hor (fun P f hP => (hgroup (Nat.le_succ _) P f hP).imp
      fun _ h => ⟨h.1, h.2.imp fun _ => Category.Sequence.single⟩) htwo hPs
    exact filter_of_spells hs (Condition.denotes_any.2 ⟨_, hds, rfl⟩)
  | negation hP =>
    obtain ⟨b, hd, hb⟩ := hgroup (Nat.le_refl _) _ _ hP
    refine filter_of_spells ?_ ((Condition.denotes_negation (s := nowhere)).2 ⟨_, hd, rfl⟩)
    rw [String.toList_append]
    exact hb.negation.single

/-- Each form of an expression text is compiled to its tree, with two more levels. -/
theorem expression_of_composed (h : c.ComposedValue source e) :
    (c.withLevels (c.dialect.maxDepth + 2)).expression source = .ok e := by
  have hc := permits_withLevels (Nat.le_add_right c.dialect.maxDepth 2)
  have hfactor (E : String) (e : Expression) :=
    spells_factor (E := E) (e := e) hc source (Nat.le_succ _)
  cases h with
  | @arithmetic E F _ _ op hE hF =>
    obtain ⟨x, hdx, hx⟩ := hfactor _ _ hE
    obtain ⟨y, hdy, hy⟩ := hfactor _ _ hF
    have hchars : (grouped E ++ " " ++ op.symbol ++ " " ++ grouped F).toList =
        (grouped E).toList ++ ' ' :: (op.mark.text.toList ++ ' ' :: (grouped F).toList) := by
      simp [op.toList_symbol]
    refine expression_of_spells ?_
      ((Operand.denotes_arithmetic (s := nowhere)).2 ⟨_, _, hdx, hdy, rfl⟩)
    rw [hchars]
    exact hx.arithmetic op hy

/-- Compiling is compositional: a text that is put together from texts that are compiled is compiled
to the tree of its form over their trees, with two more levels of nesting. -/
theorem compiles_composed (c : Compiler) :
    (∀ source f, c.Composed source f →
      (c.withLevels (c.dialect.maxDepth + 2)).filter source = .ok f) ∧
    ∀ source e, c.ComposedValue source e →
      (c.withLevels (c.dialect.maxDepth + 2)).expression source = .ok e :=
  ⟨fun _ _ => filter_of_composed, fun _ _ => expression_of_composed⟩

/-- A list behind `NOT`, put together from three texts. -/
theorem compiles_composed_notIn : ∃ e e₁ e₂, standard.expression "-a" = .ok e ∧
    standard.expression "1" = .ok e₁ ∧ standard.expression "(b)" = .ok e₂ ∧
    (standard.withLevels 102).filter "-a NOT IN (1, (b))" =
      .ok (.negation (.any [.compare .eq e e₁, .compare .eq e e₂])) := by
  obtain ⟨e, he⟩ := exists_ok (x := standard.expression "-a") (by decide +kernel)
  obtain ⟨e₁, he₁⟩ := exists_ok (x := standard.expression "1") (by decide +kernel)
  obtain ⟨e₂, he₂⟩ := exists_ok (x := standard.expression "(b)") (by decide +kernel)
  refine ⟨e, e₁, e₂, he, he₁, he₂, ?_⟩
  exact (compiles_composed standard).1 _ _
    (.inList true (List.cons_ne_nil _ _) he (.cons he₁ (.cons he₂ .nil)))

end Compiler

end FeatureFilter
