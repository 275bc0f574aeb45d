import FeatureFilter.Proofs.Syntax.Factors

/-!
# Reading operands

The reader of operands reads the rule `Grammar.IsOperand` with as many levels as it has room for
(`Operand.fits_read`). As a reader reads one thing only, tokens are an operand in one way
(`Grammar.IsOperand.unique`).
-/

namespace FeatureFilter

open Reader
open Span (nowhere)

/-! ## First tokens -/

namespace Grammar

variable {g : Grammar} {ts us : List Token} {o : Operand} {below : Option (Category Operand)}

theorem Factor.startsWith : (Factor g below).StartsWith (Operand.mayStart g) := by
  intro ts o h
  have hsign {t : Token} {negative : Bool} (hs : Operand.sign? t.kind = some negative) :
      Operand.mayStart g t.kind = true := by
    generalize t.kind = k at hs
    unfold Operand.sign? at hs
    split at hs
    · rfl
    · rfl
    · cases hs
  cases h with
  | primary h =>
    obtain ⟨t, us, rfl, ht, -⟩ := h.first
    exact ⟨t, us, rfl, ht⟩
  | number hs ht => exact ⟨_, _, rfl, hsign hs⟩
  | signed hs => exact ⟨_, _, rfl, hsign hs⟩

end Grammar

theorem Category.StartsWith.sequence {α β γ : Type} {p : TokenKind → Bool} {item : Category α}
    {link? : TokenKind → Option β} {build : α → List (β × α) → γ} (h : item.StartsWith p) :
    (Category.Sequence link? item build).StartsWith p := by
  rintro ts a ⟨head, tail⟩
  obtain ⟨t, us, rfl, ht⟩ := h head
  exact ⟨t, _, rfl, ht⟩

namespace Grammar

variable {g : Grammar} {ts us : List Token} {o : Operand} {factor : Category Operand} {n : Nat}

theorem Sum.startsWith (h : factor.StartsWith (Operand.mayStart g)) :
    (Sum factor).StartsWith (Operand.mayStart g) := h.sequence.sequence

theorem IsFactor.startsWith (n : Nat) : (IsFactor g n).StartsWith (Operand.mayStart g) :=
  isFactor_eq g n ▸ Factor.startsWith

theorem IsOperand.startsWith (n : Nat) : (IsOperand g n).StartsWith (Operand.mayStart g) :=
  Sum.startsWith (IsFactor.startsWith n)

end Grammar

/-! ## Factors -/

namespace Operand

variable {g : Grammar} {s s' : Cursor} {ts : List Token} {o : Operand} {factor : Category Operand}
  {inner : Option (Category Operand)} {below : Option (Reader Operand)}

theorem fits_chain {op? : TokenKind → Option ArithmeticOp} {ends : Cursor → Prop}
    {x : Reader Operand} (hx : Fits ends bare factor x) (hfinish : op? .finish = none)
    (hends : ∀ s : Cursor, (op? (s.kind 0)).isSome → ends s) :
    Fits (fun s => ends s ∧ op? (s.kind 0) = none) bare (Grammar.Operators op? factor)
      (readChain op? x) := by
  refine hx.sequence hfinish hends rfl fun a xs => ?_
  induction xs generalizing a with
  | nil => rfl
  | cons p xs ih =>
    rw [List.foldl_cons, ih, bare_combine]
    rfl

theorem fits_sum {x : Reader Operand} (hx : Fits Cursor.EndsFactor bare factor x) :
    Fits Cursor.EndsOperand bare (Grammar.Sum factor) (readSum x) := by
  refine fits_chain (fits_chain hx rfl fun s h => ?_) rfl fun s h => ?_
  · cases hk : s.kind 0 with
    | mark m =>
      rw [hk] at h
      cases m with
      | star => exact ⟨by rw [hk]; rfl, by rw [hk]; nofun⟩
      | slash => exact ⟨by rw [hk]; rfl, by rw [hk]; nofun⟩
      | _ => cases h
    | _ =>
      rw [hk] at h
      cases h
  · cases hk : s.kind 0 with
    | mark m =>
      rw [hk] at h
      cases m with
      | plus => exact ⟨⟨by rw [hk]; rfl, by rw [hk]; nofun⟩, by rw [hk]; rfl⟩
      | minus => exact ⟨⟨by rw [hk]; rfl, by rw [hk]; nofun⟩, by rw [hk]; rfl⟩
      | _ => cases h
    | _ =>
      rw [hk] at h
      cases h

def readSigned (negative : Bool) (t : Token) (factor : Reader Operand) : Reader Operand := do
  let operand ← factor
  if negative then
    return combine (.literal t.span (.integer (-1))) .mul operand
  else
    return operand

theorem readFactorOver_unsigned (h : sign? (s.kind 0) = none) :
    readFactorOver g below s = readPrimary g (below.map readSum) s := by
  rw [readFactorOver, peekKind_bind, h]

theorem readFactorOver_number {negative : Bool} {w : String}
    (hs : sign? (s.kind 0) = some negative) (hk : s.next.kind 0 = .number w) :
    readFactorOver g below s = (readNumber >>= fun n => spanFrom (s.token 0) >>= fun span =>
      pure (.literal span (if negative then n.negated else n))) s.next := by
  rw [readFactorOver, peekKind_bind, hs]
  show (advance >>= _) s = _
  rw [advance_bind, atNumber_bind, hk]
  rfl

theorem readFactorOver_signed {negative : Bool} (hs : sign? (s.kind 0) = some negative)
    (hk : ∀ w, s.next.kind 0 ≠ .number w) :
    readFactorOver g below s =
      deeper g below (readSigned negative (s.token 0)) s.next := by
  rw [readFactorOver, peekKind_bind, hs]
  show (advance >>= _) s = _
  rw [advance_bind, atNumber_bind]
  cases h : s.next.kind 0 with
  | number w => exact absurd h (hk w)
  | _ => rfl

theorem readSigned_eq_ok {negative : Bool} {t : Token} {x : Reader Operand} :
    readSigned negative t x s = .ok (o, s') ↔ ∃ a, x s = .ok (a, s') ∧
      o = if negative then combine (.literal t.span (.integer (-1))) .mul a else a := by
  rw [readSigned, bind_eq_ok]
  cases negative with
  | false =>
    constructor
    · rintro ⟨a, s₁, hx, h⟩
      obtain ⟨rfl, rfl⟩ := pure_eq_ok.1 h
      exact ⟨_, hx, rfl⟩
    · rintro ⟨a, hx, rfl⟩
      exact ⟨_, _, hx, rfl⟩
  | true =>
    constructor
    · rintro ⟨a, s₁, hx, h⟩
      obtain ⟨rfl, rfl⟩ := pure_eq_ok.1 h
      exact ⟨_, hx, rfl⟩
    · rintro ⟨a, hx, rfl⟩
      exact ⟨_, _, hx, rfl⟩

theorem startsNumber_iff {t : Token} {us : List Token} (h : s.Takes (t :: us) s') :
    Grammar.StartsNumber (t :: us) ↔ ∃ w, s.kind 0 = .number w := by
  rw [h.kind_cons]
  constructor
  · rintro ⟨_, w, ht, hk⟩
    cases ht
    exact ⟨w, hk⟩
  · rintro ⟨w, hk⟩
    exact ⟨t, w, rfl, hk⟩

theorem readFactorOver_sound (hb : FitsBelow Cursor.EndsFactor bare inner below)
    (hs : ∀ factor, inner = some factor → factor.StartsWith (mayStart g))
    (hprimary : Fits Cursor.EndsFactor bare (Grammar.Primary g (inner.map Grammar.Sum))
      (readPrimary g (below.map readSum))) (hf : s.finish.kind = .finish)
    (h : readFactorOver g below s = .ok (o, s')) :
    ∃ ts, s.Takes ts s' ∧ Grammar.Factor g inner ts o.bare := by
  cases hsign : sign? (s.kind 0) with
  | none =>
    rw [readFactorOver_unsigned hsign] at h
    obtain ⟨ts, hts, ho⟩ := hprimary.sound hf h
    exact ⟨ts, hts, .primary ho⟩
  | some negative =>
    have hne : s.kind 0 ≠ .finish := TokenKind.ne_finish hsign rfl
    by_cases hk : ∃ w, s.next.kind 0 = .number w
    · obtain ⟨w, hk⟩ := hk
      rw [readFactorOver_number hsign hk] at h
      obtain ⟨l, s₁, hl, h⟩ := bind_eq_ok.1 h
      obtain ⟨w', hw', hl', rfl⟩ := readNumber_eq_ok.1 hl
      obtain ⟨rfl, rfl⟩ := spanFrom_pure_eq_ok.1 h
      exact ⟨_, .cons_next (.cons_of_kind hw' nofun (.refl (by simpa using hf))) hf hne,
        .number hsign hw' hl'⟩
    · rw [readFactorOver_signed hsign fun w hw => hk ⟨w, hw⟩] at h
      obtain ⟨x, hx, h⟩ := deeper_eq_ok.1 h
      obtain ⟨factor, level, hx⟩ := hb.of_reader hx
      obtain ⟨a, ha, rfl⟩ := readSigned_eq_ok.1 h
      obtain ⟨ts, hts, ho⟩ := hx.sound (by simpa using hf) ha
      obtain ⟨t, us, rfl, -⟩ := hs factor level ho
      refine ⟨_, hts.cons_next hf hne, ?_⟩
      have hn : ¬ Grammar.StartsNumber (t :: us) := fun h => hk ((startsNumber_iff hts).1 h)
      have := Grammar.Factor.signed (g := g) hsign hn level ho
      cases negative with
      | false => exact this
      | true =>
        rw [if_pos rfl] at this ⊢
        rw [bare_combine]
        exact this

theorem readFactorOver_complete (hb : FitsBelow Cursor.EndsFactor bare inner below)
    (hs : ∀ factor, inner = some factor → factor.StartsWith (mayStart g))
    (hprimary : Fits Cursor.EndsFactor bare (Grammar.Primary g (inner.map Grammar.Sum))
      (readPrimary g (below.map readSum))) {ts : List Token} (ht : s.Takes ts s')
    (ho : Grammar.Factor g inner ts o) (he : s'.EndsFactor) :
    ∃ a, readFactorOver g below s = .ok (a, s') ∧ a.bare = o := by
  cases ho with
  | primary ho =>
    obtain ⟨t, us, rfl, -, hsign⟩ := ho.first
    rw [readFactorOver_unsigned (ht.kind_cons ▸ hsign)]
    exact hprimary.complete ht ho he
  | @number t t' negative w l hsign hk hl =>
    have ht' := ht.next_cons
    rw [readFactorOver_number (ht.kind_cons ▸ hsign) (ht'.kind_cons.trans hk)]
    refine ⟨.literal { (s.token 0).span with stop := max s'.lastStop (s.token 0).span.stop }
      (if negative then l.negated else l), ?_, rfl⟩
    exact bind_eq_ok.2 ⟨l, s', readNumber_eq_ok.2 ⟨w, ht'.kind_cons.trans hk, hl, ht'.next_single⟩,
      rfl⟩
  | @signed t us negative o factor hsign hn level ho =>
    obtain ⟨x, rfl, hx⟩ := hb.of_category level
    obtain ⟨t', us', rfl, -⟩ := hs factor level ho
    have ht' := ht.next_cons
    obtain ⟨a, ha, rfl⟩ := hx.complete ht' ho he
    rw [readFactorOver_signed (ht.kind_cons ▸ hsign)
      fun w hw => hn ((startsNumber_iff ht').2 ⟨w, hw⟩)]
    refine ⟨_, readSigned_eq_ok.2 ⟨a, ha, rfl⟩, ?_⟩
    cases negative with
    | false => rfl
    | true => exact bare_combine _ _ _

theorem fits_factorOver (hb : FitsBelow Cursor.EndsFactor bare inner below)
    (hs : ∀ factor, inner = some factor → factor.StartsWith (mayStart g)) :
    Fits Cursor.EndsFactor bare (Grammar.Factor g inner) (readFactorOver g below) := by
  have hsum : FitsBelow Cursor.EndsOperand bare (inner.map Grammar.Sum) (below.map readSum) :=
    hb.map fun _ _ => fits_sum
  have hprimary := fits_primary (g := g) hsum fun item hi => by
    obtain ⟨factor, hf, rfl⟩ := Option.map_eq_some_iff.1 hi
    exact Grammar.Sum.startsWith (hs factor hf)
  exact ⟨readFactorOver_sound hb hs hprimary, readFactorOver_complete hb hs hprimary⟩

/-- Factors with their signs, with as many levels of nesting as there is room for. -/
theorem fits_factor (g : Grammar) :
    ∀ room, Fits Cursor.EndsFactor bare (g.IsFactor room) (readFactor g room)
  | 0 => fits_factorOver .none nofun
  | room + 1 => fits_factorOver (.some (fits_factor g room)) fun factor h => by
    cases h
    exact Grammar.IsFactor.startsWith room

/-- The reader of operands reads operands with as many levels of nesting as there is room for. -/
theorem fits_read (g : Grammar) (room : Nat) :
    Fits Cursor.EndsOperand bare (g.IsOperand room) (read g room) :=
  fits_sum (fits_factor g room)

end Operand

/-! ## The first factor -/

namespace Operand

def isOperator (k : TokenKind) : Bool := (productOp? k).isSome || (sumOp? k).isSome

theorem isOperator_cases {k : TokenKind} (h : isOperator k = true) :
    k = .mark .star ∨ k = .mark .slash ∨ k = .mark .plus ∨ k = .mark .minus := by
  unfold isOperator productOp? sumOp? at h
  cases k with
  | mark m => cases m <;> simp_all
  | _ => cases h

end Operand

namespace Grammar

open Operand (isOperator)
open Category (Linked)

variable {g : Grammar} {s s' : Cursor} {ts fs us : List Token} {o : Operand}
  {inner : Option (Category Operand)} {factor item : Category Operand} {n : Nat} {w : String}

theorem linked_cases {α β : Type} {link? : TokenKind → Option β} {item : Category α}
    {links : List (β × α)} (h : Linked link? item ts links) (ht : s.Takes ts s') :
    (ts = [] ∧ links = [] ∧ s = s') ∨ (link? (s.kind 0)).isSome = true ∧ links ≠ [] := by
  cases h with
  | nil => exact .inl ⟨rfl, rfl, ht.eq_of_nil⟩
  | cons link _ _ =>
    refine .inr ⟨?_, nofun⟩
    rw [ht.kind_cons, link]
    rfl

theorem foldl_arithmetic (links : List (ArithmeticOp × Operand)) (hne : links ≠ []) (o : Operand) :
    ∃ op l r, links.foldl (fun left link => .arithmetic nowhere link.1 left link.2) o =
      .arithmetic nowhere op l r := by
  induction links generalizing o with
  | nil => exact absurd rfl hne
  | cons link links ih =>
    cases links with
    | nil => exact ⟨_, _, _, rfl⟩
    | cons link' links => exact ih nofun _

theorem Sum.first (h : Sum factor ts o) (ht : s.Takes ts s') :
    ∃ fs a s₁, factor fs a ∧ s.Takes fs s₁ ∧
      (s₁ = s' ∧ ts = fs ∧ o = a ∨
        isOperator (s₁.kind 0) = true ∧ (∃ us, s₁.Takes us s') ∧
          ∃ op l r, o = .arithmetic nowhere op l r) := by
  obtain ⟨⟨head, tail⟩, tail'⟩ := h
  rename_i products sums fs us a links
  obtain ⟨s₂, ht₂, hsums⟩ := ht.split
  obtain ⟨s₁, ht₁, hproducts⟩ := ht₂.split
  refine ⟨fs, a, s₁, head, ht₁, ?_⟩
  obtain ⟨rfl, rfl, rfl⟩ | ⟨hp, hne⟩ := linked_cases tail hproducts
  · obtain ⟨rfl, rfl, rfl⟩ | ⟨hs, hne⟩ := linked_cases tail' hsums
    · exact .inl ⟨rfl, by simp, rfl⟩
    · exact .inr ⟨by simp [isOperator, hs], ⟨_, hsums⟩, foldl_arithmetic _ hne _⟩
  · refine .inr ⟨by simp [isOperator, hp], ⟨_, hproducts.append hsums⟩, ?_⟩
    obtain ⟨rfl, rfl, rfl⟩ | ⟨-, hne'⟩ := linked_cases tail' hsums
    · exact foldl_arithmetic _ hne _
    · exact foldl_arithmetic _ hne' _

/-! ## Second tokens -/

theorem noEnd_of_goesOn {k : TokenKind} (h : Operand.goesOnAsGeometry k = true) :
    Condition.endsPredicate k = false := by
  cases k with
  | mark m => cases m <;> first | rfl | cases h
  | identifier w => rfl
  | _ => cases h

/-- Factors without signs are single tokens, and no calls, unless they start with a word or an open
group. -/
theorem Primary.second (h : Primary g inner fs o) (ht : s.Takes fs s') :
    (s' = s.next ∧ ∀ name args, o ≠ .call nowhere name args) ∨ (∃ m, g.close? (s.kind 0) = some m) ∨
      (∃ w, s.kind 0 = .identifier w) ∧ Condition.endsPredicate (s.kind 1) = false := by
  have hparen {t t' : Token} {us : List Token} {w : String} (ht : s.Takes (t :: t' :: us) s')
      (hk : t.kind = .identifier w) (hp : t'.kind = .mark .leftParen) :
      (∃ w, s.kind 0 = .identifier w) ∧ Condition.endsPredicate (s.kind 1) = false := by
    rw [← Cursor.kind_next, ht.kind_cons, ht.next_cons.kind_cons, hp, hk]
    exact ⟨⟨w, rfl⟩, rfl⟩
  cases h with
  | group hm => exact .inr (.inl ⟨_, ht.kind_cons ▸ hm⟩)
  | callEmpty hk _ hp => exact .inr (.inr (hparen ht hk hp))
  | call hk _ hp => exact .inr (.inr (hparen ht hk hp))
  | envelope hk _ hp => exact .inr (.inr (hparen ht hk hp))
  | date hk _ hp => exact .inr (.inr (hparen ht hk hp))
  | timestamp hk _ hp => exact .inr (.inr (hparen ht hk hp))
  | interval hk _ hp => exact .inr (.inr (hparen ht hk hp))
  | geometry hshape =>
    obtain ⟨w, hk, -, hgo⟩ := Operand.atGeometry_iff.1 (Operand.atGeometry_of_shape ht hshape)
    rw [Cursor.kind_next] at hgo
    exact .inr (.inr ⟨⟨w, hk⟩, noEnd_of_goesOn hgo⟩)
  | srid hk _ he =>
    rw [← Cursor.kind_next, ht.kind_cons, ht.next_cons.kind_cons, he, hk]
    exact .inr (.inr ⟨⟨_, rfl⟩, rfl⟩)
  | _ => exact .inl ⟨ht.next_single, nofun⟩

theorem Factor.second (h : Factor g inner fs o) (ht : s.Takes fs s') :
    (s' = s.next ∧ ∀ name args, o ≠ .call nowhere name args) ∨ (∃ m, g.close? (s.kind 0) = some m) ∨
      (∃ negative, Operand.sign? (s.kind 0) = some negative) ∨
        (∃ w, s.kind 0 = .identifier w) ∧ Condition.endsPredicate (s.kind 1) = false := by
  cases h with
  | primary h => exact (h.second ht).imp_right (Or.imp_right .inr)
  | number hs => exact .inr (.inr (.inl ⟨_, ht.kind_cons ▸ hs⟩))
  | signed hs => exact .inr (.inr (.inl ⟨_, ht.kind_cons ▸ hs⟩))

/-- Behind a number with which an operand starts stands an operator, or the operand ends. -/
theorem IsOperand.second_number (h : g.IsOperand n ts o) (ht : s.Takes ts s')
    (hk : s.kind 0 = .number w) : isOperator (s.kind 1) = true ∨ s.kind 1 = s'.kind 0 := by
  obtain ⟨fs, a, s₁, hf, ht₁, hend⟩ := Sum.first h ht
  rw [isFactor_eq] at hf
  rcases hf.second ht₁ with ⟨rfl, -⟩ | ⟨m, hm⟩ | ⟨b, hb⟩ | ⟨⟨w', hw'⟩, -⟩
  · rw [Cursor.kind_next] at hend
    rcases hend with ⟨rfl, -⟩ | ⟨hop, -⟩
    · exact .inr (Cursor.kind_next s 0).symm
    · exact .inl hop
  · rw [hk] at hm
    cases hm
  · rw [hk] at hb
    cases hb
  · rw [hk] at hw'
    cases hw'

/-- A condition cannot end behind the word that an operand starts with, unless the operand ends
there; then it is no call. -/
theorem IsOperand.second_word (h : g.IsOperand n ts o) (ht : s.Takes ts s')
    (hk : s.kind 0 = .identifier w) :
    Condition.endsPredicate (s.kind 1) = false ∨
      s.kind 1 = s'.kind 0 ∧ ∀ name args, o ≠ .call nowhere name args := by
  obtain ⟨fs, a, s₁, hf, ht₁, hend⟩ := Sum.first h ht
  rw [isFactor_eq] at hf
  rcases hf.second ht₁ with ⟨rfl, hno⟩ | ⟨m, hm⟩ | ⟨b, hb⟩ | ⟨-, hno⟩
  · rw [Cursor.kind_next] at hend
    rcases hend with ⟨rfl, -, rfl⟩ | ⟨hop, -⟩
    · exact .inr ⟨(Cursor.kind_next s 0).symm, hno⟩
    · left
      rcases Operand.isOperator_cases hop with hop | hop | hop | hop <;> rw [hop] <;> rfl
  · rw [hk] at hm
    cases hm
  · rw [hk] at hb
    cases hb
  · exact .inl hno

/-! ## Groups in front -/

/-- An operand that starts with an open group is the group, or has an operator behind it. -/
theorem IsOperand.first_group {m : Mark} (h : g.IsOperand n ts o) (ht : s.Takes ts s')
    (hm : g.close? (s.kind 0) = some m) :
    ∃ k ys y s₁ s₂, n = k + 1 ∧ g.IsOperand k ys y ∧ s.next.Takes ys s₁ ∧
      s₁.kind 0 = .mark m ∧ s₁.Takes [s₁.token 0] s₂ ∧
        (s₂ = s' ∧ ts = s.token 0 :: (ys ++ [s₁.token 0]) ∧ o = y ∨
          isOperator (s₂.kind 0) = true ∧ (∃ us, s₂.Takes us s') ∧
            ∃ op l r, o = .arithmetic nowhere op l r) := by
  obtain ⟨fs, a, s₂, hf, ht₂, hend⟩ := Sum.first h ht
  have hsign := Operand.sign?_of_close hm
  rw [isFactor_eq] at hf
  obtain ⟨t, us, rfl, ht⟩ : ∃ t us, fs = t :: us ∧ t.kind = s.kind 0 := by
    obtain ⟨t, us, rfl, -⟩ := hf.startsWith
    exact ⟨t, us, rfl, ht₂.kind_cons.symm⟩
  rw [← ht] at hm hsign
  cases hf with
  | number hs =>
    rw [hsign] at hs
    cases hs
  | signed hs =>
    rw [hsign] at hs
    cases hs
  | primary hf =>
    cases hf with
    | group ht' level hy hclose =>
      rw [hm] at ht'
      cases ht'
      obtain ⟨c, hc, rfl⟩ := Option.map_eq_some_iff.1 level
      obtain ⟨k, rfl, rfl⟩ := Category.below_eq_some.1 hc
      obtain ⟨s₁, h₁, h₂⟩ := ht₂.next_cons.split
      have hk := h₂.token_cons
      rw [← hk] at h₂ hclose
      rw [ht₂.token_cons]
      exact ⟨k, _, _, s₁, s₂, rfl, hy, h₁, hclose, h₂, by rw [hk]; exact hend⟩
    | geometry hshape =>
      cases hshape with
      | intro hk =>
        rw [hk] at hm
        cases hm
    | boolean b hk =>
      rw [hk] at hm
      cases b <;> cases hm
    | _ hk =>
      rw [hk] at hm
      cases hm

/-! ## Only one way -/

/-- Operands in front of where operands can end are the same. -/
theorem IsOperand.unique {a b : Operand} {s₁ s₂ : Cursor} (ha : g.IsOperand n ts a)
    (hb : g.IsOperand n us b) (ht : s.Takes ts s₁) (hu : s.Takes us s₂) (h₁ : s₁.EndsOperand)
    (h₂ : s₂.EndsOperand) : ts = us ∧ a = b ∧ s₁ = s₂ :=
  (Operand.fits_read g n).unique ha hb ht hu h₁ h₂

end Grammar

end FeatureFilter
