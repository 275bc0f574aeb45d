import FeatureFilter.Proofs.Syntax.Operands
import FeatureFilter.Proofs.Token.Name

/-!
# Reading predicates

A predicate is an operand and what is said about it. What is said is read by the rule `Grammar.Said`
(`Condition.fits_rest`), up to where a condition can end.
-/

namespace FeatureFilter

open Reader
open Span (nowhere)

/-! ## Ends -/

namespace Condition

theorem endsPredicate_cases {kind : TokenKind} (h : endsPredicate kind = true) :
    kind = .finish ∨ kind = .keyword .and ∨ kind = .keyword .or ∨ kind = .mark .rightParen ∨
      kind = .mark .rightBracket := by
  unfold endsPredicate at h
  split at h <;> simp_all

end Condition

namespace Cursor

def EndsPredicate (s : Cursor) : Prop := Condition.endsPredicate (s.kind 0) = true

theorem EndsPredicate.endsOperand {s : Cursor} (h : s.EndsPredicate) : s.EndsOperand := by
  rcases Condition.endsPredicate_cases h with h | h | h | h | h
  all_goals exact endsOperand_of h rfl nofun rfl rfl

theorem EndsPredicate.atOperator_eq {s : Cursor} (h : s.EndsPredicate) :
    Condition.atOperator s = false := by
  rw [Condition.atOperator]
  rcases Condition.endsPredicate_cases h with h | h | h | h | h <;> rw [h] <;> rfl

theorem EndsPredicate.noSemicolon {s : Cursor} (h : s.EndsPredicate) :
    s.kind 0 ≠ .mark .semicolon := by
  intro he
  rw [EndsPredicate, he] at h
  cases h

end Cursor

theorem Grammar.endsPredicate_of_close {g : Grammar} {k : TokenKind} {m : Mark} {s : Cursor}
    (hm : g.close? k = some m) (hk : s.kind 0 = .mark m) : s.EndsPredicate := by
  rw [Cursor.EndsPredicate, hk]
  unfold close? at hm
  split at hm
  · cases hm
    rfl
  · split at hm
    · cases hm
      rfl
    · cases hm
  · cases hm

namespace Condition

variable {g : Grammar} {s s' : Cursor} {ts ns : List Token} {operand : Category Operand}
  {inner : Option (Category Operand)} {x : Reader Operand} {below : Option (Reader Operand)}
  {start : Token} {value o : Operand} {c : Condition} {negated : Bool}

/-! ## Parts of predicates -/

theorem readPattern_eq_ok {pattern : String} : readPattern s = .ok (pattern, s') ↔
    s.kind 0 = .string pattern ∧ s' = s.next := by
  rw [readPattern, peekKind_bind]
  cases s.kind 0 with
  | string content =>
    refine advance_bind_eq_ok.trans (pure_eq_ok.trans ?_)
    rw [TokenKind.string.injEq, @eq_comm _ s']
  | _ => exact ⟨nofun, fun h => nomatch h.1⟩

theorem readChoices_sound (hb : FitsBelow Cursor.EndsOperand Operand.bare inner below)
    (hf : s.finish.kind = .finish) {choices : List Operand}
    (h : readChoices g below s = .ok (choices, s')) :
    ∃ item cs, inner = some item ∧ item.CommaList cs (Operand.bareAll choices) ∧
      ∃ p p', p.kind = .mark .leftParen ∧ p'.kind = .mark .rightParen ∧
        s.Takes (p :: (cs ++ [p'])) s' := by
  obtain ⟨hp, h⟩ := expect_bind_eq_ok.1 h
  obtain ⟨r, hr, h⟩ := deeper_eq_ok.1 h
  obtain ⟨item, level, hr⟩ := hb.of_reader hr
  obtain ⟨os, s₁, hos, h⟩ := bind_eq_ok.1 h
  obtain ⟨cs, hcs, hl⟩ := (Operand.fits_commaList hr).sound (by simpa using hf) hos
  obtain ⟨hp', h⟩ := expectKind_bind_eq_ok.1 h
  obtain ⟨rfl, rfl⟩ := pure_eq_ok.1 h
  exact ⟨item, cs, level, hl, _, _, hp, hp',
    .cons_of_kind hp nofun (hcs.append (.cons_of_kind hp' nofun
      (.refl (by simpa using hcs.finish'))))⟩

theorem readChoices_complete (hb : FitsBelow Cursor.EndsOperand Operand.bare inner below)
    {item : Category Operand} (level : inner = some item) {cs : List Token}
    {choices : List Operand} (hcs : item.CommaList cs choices) {p p' : Token}
    (hp : p.kind = .mark .leftParen) (hp' : p'.kind = .mark .rightParen)
    (h : s.Takes (p :: (cs ++ [p'])) s') :
    ∃ os, readChoices g below s = .ok (os, s') ∧ Operand.bareAll os = choices := by
  obtain ⟨r, rfl, hr⟩ := hb.of_category level
  obtain ⟨s₁, h₁, h₂⟩ := h.next_cons.split
  have hk := h₂.kind_cons.trans hp'
  obtain ⟨os, hos, rfl⟩ := (Operand.fits_commaList hr).complete h₁ hcs (Operand.ends_commaList hk)
  exact ⟨os, expect_bind_eq_ok.2 ⟨h.kind_cons.trans hp, deeper_eq_ok.2 ⟨r, rfl, bind_eq_ok.2
    ⟨os, s₁, hos, expectKind_bind_eq_ok.2 ⟨hk, h₂.next_single ▸ rfl⟩⟩⟩⟩, rfl⟩

/-! ## What may be negated -/

def startsNegatable (g : Grammar) : TokenKind → Bool
  | .keyword .between | .keyword .like | .keyword .inList => true
  | .identifier w => sameWord w "ILIKE" && g.dialect.allows .ilike
  | _ => false

theorem readNegatable_between (hk : s.kind 0 = .keyword .between) :
    readNegatable g x below start value negated s = (do
      let low ← x
      expectKind (.keyword .and) "AND"
      let high ← x
      let span ← spanFrom start
      return .between span negated value low high : Reader Condition) s.next := by
  rw [readNegatable, peekKind_bind, hk]
  exact advance_bind

theorem readNegatable_like (hk : s.kind 0 = .keyword .like) :
    readNegatable g x below start value negated s = (do
      let pattern ← readPattern
      let span ← spanFrom start
      return .like span negated value pattern true : Reader Condition) s.next := by
  rw [readNegatable, peekKind_bind, hk]
  exact advance_bind

theorem readNegatable_inList (hk : s.kind 0 = .keyword .inList) :
    readNegatable g x below start value negated s = (do
      let choices ← readChoices g below
      let span ← spanFrom start
      return .inList span negated value choices : Reader Condition) s.next := by
  rw [readNegatable, peekKind_bind, hk]
  exact advance_bind

theorem readNegatable_ilike {w : String} (hk : s.kind 0 = .identifier w)
    (hw : sameWord w "ILIKE" = true) (hallow : g.dialect.allows .ilike = true) :
    readNegatable g x below start value negated s = (do
      let pattern ← readPattern
      let span ← spanFrom start
      return .like span negated value pattern false : Reader Condition) s.next := by
  rw [readNegatable, peekKind_bind, hk]
  show (if (sameWord w "ILIKE" && g.dialect.allows .ilike) = true then _ else _ :
    Reader Condition) s = _
  rw [if_pos (by rw [hw, hallow]; rfl)]
  exact advance_bind

theorem startsNegatable_of_ok {p : Condition × Cursor}
    (h : readNegatable g x below start value negated s = .ok p) :
    startsNegatable g (s.kind 0) = true := by
  rw [readNegatable, peekKind_bind] at h
  cases hk : s.kind 0 with
  | keyword k =>
    rw [hk] at h
    cases k <;> first | rfl | cases h
  | identifier w =>
    rw [hk] at h
    obtain ⟨hc, -⟩ | ⟨-, h⟩ := ite_eq_ok.1 h
    · exact hc
    · exact absurd h failHere_ne_ok
  | _ =>
    rw [hk] at h
    cases h

theorem readNegatable_sound (hx : Fits Cursor.EndsOperand Operand.bare operand x)
    (hb : FitsBelow Cursor.EndsOperand Operand.bare inner below) (hf : s.finish.kind = .finish)
    (h : readNegatable g x below start value negated s = .ok (c, s')) :
    ∃ ts, s.Takes ts s' ∧ ∀ ns, Grammar.Nots negated ns →
      Grammar.Said g operand inner value.bare (ns ++ ts) c.bare := by
  have hk := startsNegatable_of_ok h
  have hf' : s.next.finish.kind = .finish := by simpa using hf
  cases hk' : s.kind 0 with
  | keyword k =>
    cases k with
    | between =>
      rw [readNegatable_between hk'] at h
      obtain ⟨low, s₁, hlow, h⟩ := bind_eq_ok.1 h
      obtain ⟨ls, hls, hl⟩ := hx.sound hf' hlow
      obtain ⟨hand, h⟩ := expectKind_bind_eq_ok.1 h
      obtain ⟨high, s₂, hhigh, h⟩ := bind_eq_ok.1 h
      obtain ⟨hs, hhs, hh⟩ := hx.sound (by simpa using hls.finish') hhigh
      obtain ⟨rfl, rfl⟩ := spanFrom_pure_eq_ok.1 h
      exact ⟨_, .cons_of_kind hk' nofun (hls.append (.cons_of_kind hand nofun hhs)),
        fun ns hn => .between hn hk' hl hand hh⟩
    | like =>
      rw [readNegatable_like hk'] at h
      obtain ⟨pattern, s₁, hr, h⟩ := bind_eq_ok.1 h
      obtain ⟨hp, rfl⟩ := readPattern_eq_ok.1 hr
      obtain ⟨rfl, rfl⟩ := spanFrom_pure_eq_ok.1 h
      exact ⟨_, .cons_of_kind hk' nofun (.cons_of_kind hp nofun (.refl (by simpa using hf))),
        fun ns hn => .like hn hk' hp⟩
    | inList =>
      rw [readNegatable_inList hk'] at h
      obtain ⟨choices, s₁, hcs, h⟩ := bind_eq_ok.1 h
      obtain ⟨item, cs, level, hl, p, p', hp, hp', ht⟩ := readChoices_sound hb hf' hcs
      obtain ⟨rfl, rfl⟩ := spanFrom_pure_eq_ok.1 h
      exact ⟨_, .cons_of_kind hk' nofun ht, fun ns hn => .inList hn hk' hp level hl hp'⟩
    | _ =>
      rw [hk'] at hk
      cases hk
  | identifier w =>
    rw [hk'] at hk
    obtain ⟨hw, hallow⟩ := Bool.and_eq_true_iff.1 hk
    rw [readNegatable_ilike hk' hw hallow] at h
    obtain ⟨pattern, s₁, hr, h⟩ := bind_eq_ok.1 h
    obtain ⟨hp, rfl⟩ := readPattern_eq_ok.1 hr
    obtain ⟨rfl, rfl⟩ := spanFrom_pure_eq_ok.1 h
    exact ⟨_, .cons_of_kind hk' nofun (.cons_of_kind hp nofun (.refl (by simpa using hf))),
      fun ns hn => .ilike hallow hn hk' hw hp⟩
  | _ =>
    rw [hk'] at hk
    cases hk

/-! ## What is said about a value -/

/-- The part of a predicate behind its value. -/
def readRest (g : Grammar) (operand : Reader Operand) (below : Option (Reader Operand))
    (start : Token) (value : Operand) : Reader Condition := do
  let kind ← peekKind
  match endsPredicate kind, value with
  | true, .call span name args => return .call span name args
  | _, _ =>
    match comparisonOp? kind with
    | some op =>
      let _ ← Reader.advance
      let right ← operand
      return .compare (← Reader.spanFrom start) op value right
    | none =>
      match kind with
      | .keyword .not =>
        let _ ← Reader.advance
        readNegatable g operand below start value true
      | .keyword .is =>
        let _ ← Reader.advance
        let negated := (← peekKind) = .keyword .not
        if negated then
          let _ ← Reader.advance
        Reader.expectKind (.keyword .null) "NULL"
        return .isNull (← Reader.spanFrom start) negated value
      | .mark .bang =>
        Reader.failHere "comparison operator"
          (some "use '<>' for inequality and NOT for negation")
      | _ => readNegatable g operand below start value false

theorem readPredicate_eq (g : Grammar) (operand : Reader Operand)
    (below : Option (Reader Operand)) :
    readPredicate g operand below = (do
      refuseRemoved
      let start ← peek
      let value ← operand
      readRest g operand below start value) := rfl

/-- Nothing need be said about a call. -/
theorem readRest_call {span : Span} {name : String} {args : List Operand} (h : s.EndsPredicate) :
    readRest g x below start (.call span name args) s = .ok (.call span name args, s) := by
  rw [readRest, peekKind_bind]
  have h : endsPredicate (s.kind 0) = true := h
  rw [h]
  rfl

theorem endsPredicate_of_comparison {k : TokenKind} {op : ComparisonOp}
    (h : comparisonOp? k = some op) : endsPredicate k = false := by
  cases k with
  | mark m => cases m <;> first | rfl | cases h
  | _ => cases h

theorem readRest_compare {op : ComparisonOp} (h : comparisonOp? (s.kind 0) = some op) :
    readRest g x below start value s = (do
      let right ← x
      let span ← spanFrom start
      return .compare span op value right : Reader Condition) s.next := by
  rw [readRest, peekKind_bind, endsPredicate_of_comparison h, h]
  exact advance_bind

theorem readRest_not (h : s.kind 0 = .keyword .not) :
    readRest g x below start value s = readNegatable g x below start value true s.next := by
  rw [readRest, peekKind_bind, h]
  exact advance_bind

def readNull (start : Token) (value : Operand) (negated : Bool) : Reader Condition := do
  expectKind (.keyword .null) "NULL"
  return .isNull (← spanFrom start) negated value

theorem readRest_is (h : s.kind 0 = .keyword .is) (hn : s.next.kind 0 ≠ .keyword .not) :
    readRest g x below start value s = readNull start value false s.next := by
  rw [readRest, peekKind_bind, h]
  refine advance_bind.trans ?_
  rw [peekKind_bind]
  simp only [hn, decide_false]
  rfl

theorem readRest_isNot (h : s.kind 0 = .keyword .is) (hn : s.next.kind 0 = .keyword .not) :
    readRest g x below start value s = readNull start value true s.next.next := by
  rw [readRest, peekKind_bind, h]
  refine advance_bind.trans ?_
  rw [peekKind_bind]
  simp only [hn, decide_true, if_true]
  exact advance_bind

theorem readNull_eq_ok : readNull start value negated s = .ok (c, s') ↔
    s.kind 0 = .keyword .null ∧ s' = s.next ∧
      c = .isNull { start.span with stop := max s'.lastStop start.span.stop } negated value := by
  rw [readNull, expectKind_bind_eq_ok, spanFrom_pure_eq_ok, and_comm (b := s' = s.next)]
  exact and_congr_right fun _ => and_congr_right fun hs => by rw [hs]

theorem readRest_negatable (h : startsNegatable g (s.kind 0) = true) :
    readRest g x below start value s = readNegatable g x below start value false s := by
  rw [readRest, peekKind_bind]
  cases hk : s.kind 0 with
  | keyword k =>
    rw [hk] at h
    cases k <;> first | rfl | cases h
  | identifier w => rfl
  | _ =>
    rw [hk] at h
    cases h

/-- What is said starts in one of these ways, if anything is said. -/
theorem readRest_cases {p : Condition × Cursor}
    (h : readRest g x below start value s = .ok p) :
    (s.EndsPredicate ∧ (∃ span name args, value = .call span name args ∧
      p = (.call span name args, s))) ∨
      (∃ op, comparisonOp? (s.kind 0) = some op) ∨ s.kind 0 = .keyword .not ∨
        s.kind 0 = .keyword .is ∨ startsNegatable g (s.kind 0) = true := by
  by_cases hc : ∃ op, comparisonOp? (s.kind 0) = some op
  · exact .inr (.inl hc)
  by_cases hn : s.kind 0 = .keyword .not
  · exact .inr (.inr (.inl hn))
  by_cases hi : s.kind 0 = .keyword .is
  · exact .inr (.inr (.inr (.inl hi)))
  have hc : comparisonOp? (s.kind 0) = none := Option.eq_none_iff_forall_not_mem.2 fun op ho =>
    hc ⟨op, ho⟩
  rw [readRest, peekKind_bind] at h
  cases he : endsPredicate (s.kind 0) with
  | true =>
    rw [he] at h
    cases value with
    | call span name args => exact .inl ⟨he, span, name, args, rfl, (Except.ok.inj h).symm⟩
    | _ =>
      rcases endsPredicate_cases he with hk | hk | hk | hk | hk
      all_goals
        rw [hk] at h
        have hneg := startsNegatable_of_ok h
        rw [hk] at hneg
        cases hneg
  | false =>
    rw [he, hc] at h
    refine .inr (.inr (.inr (.inr ?_)))
    cases hk : s.kind 0 with
    | mark m =>
      rw [hk] at h
      cases m with
      | bang => cases h
      | _ => exact hk ▸ startsNegatable_of_ok h
    | keyword k =>
      rw [hk] at h
      cases k with
      | not => exact absurd hk hn
      | is => exact absurd hk hi
      | _ => exact hk ▸ startsNegatable_of_ok h
    | _ =>
      rw [hk] at h
      exact hk ▸ startsNegatable_of_ok h

theorem readRest_sound (hx : Fits Cursor.EndsOperand Operand.bare operand x)
    (hb : FitsBelow Cursor.EndsOperand Operand.bare inner below) (hf : s.finish.kind = .finish)
    (h : readRest g x below start value s = .ok (c, s')) :
    ∃ ts, s.Takes ts s' ∧ Grammar.Said g operand inner value.bare ts c.bare := by
  have hf' : s.next.finish.kind = .finish := by simpa using hf
  rcases readRest_cases h with ⟨-, span, name, args, rfl, hp⟩ | ⟨op, hop⟩ | hk | hk | hk
  · cases hp
    exact ⟨[], .refl hf, .call rfl⟩
  · rw [readRest_compare hop] at h
    obtain ⟨right, s₁, hright, h⟩ := bind_eq_ok.1 h
    obtain ⟨ts, hts, hy⟩ := hx.sound hf' hright
    obtain ⟨rfl, rfl⟩ := spanFrom_pure_eq_ok.1 h
    have hne : s.kind 0 ≠ .finish := TokenKind.ne_finish hop rfl
    exact ⟨_, hts.cons_next hf hne, .compare hop hy⟩
  · rw [readRest_not hk] at h
    obtain ⟨ts, hts, hsaid⟩ := readNegatable_sound hx hb hf' h
    exact ⟨_, .cons_of_kind hk nofun hts, hsaid [s.token 0] (.yes hk)⟩
  · by_cases hn : s.next.kind 0 = .keyword .not
    · rw [readRest_isNot hk hn] at h
      obtain ⟨hnull, rfl, rfl⟩ := readNull_eq_ok.1 h
      exact ⟨_, .cons_of_kind hk nofun (.cons_of_kind hn nofun (.cons_of_kind hnull nofun
        (.refl (by simpa using hf)))), .isNull hk (.yes hn) hnull⟩
    · rw [readRest_is hk hn] at h
      obtain ⟨hnull, rfl, rfl⟩ := readNull_eq_ok.1 h
      exact ⟨_, .cons_of_kind hk nofun (.cons_of_kind hnull nofun (.refl (by simpa using hf))),
        .isNull hk .no hnull⟩
  · rw [readRest_negatable hk] at h
    obtain ⟨ts, hts, hsaid⟩ := readNegatable_sound hx hb hf h
    exact ⟨ts, hts, hsaid [] .no⟩

theorem readRest_nots {s₁ : Cursor} (hn : Grammar.Nots negated ns) (ht : s.Takes ns s₁)
    (hk : startsNegatable g (s₁.kind 0) = true) :
    readRest g x below start value s = readNegatable g x below start value negated s₁ := by
  cases hn with
  | no =>
    obtain rfl := ht.eq_of_nil
    exact readRest_negatable hk
  | yes hnot =>
    obtain rfl := ht.next_single
    exact readRest_not (ht.kind_cons.trans hnot)

theorem readRest_complete (hx : Fits Cursor.EndsOperand Operand.bare operand x)
    (hb : FitsBelow Cursor.EndsOperand Operand.bare inner below) {b : Condition}
    (h : s.Takes ts s') (hs : Grammar.Said g operand inner value.bare ts b)
    (he : s'.EndsPredicate) :
    ∃ c, readRest g x below start value s = .ok (c, s') ∧ c.bare = b := by
  let span : Span := { start.span with stop := max s'.lastStop start.span.stop }
  cases hs with
  | @compare t us op y ht hy =>
    obtain ⟨o, ho, rfl⟩ := hx.complete h.next_cons hy he.endsOperand
    refine ⟨.compare span op value o, ?_, rfl⟩
    rw [readRest_compare (h.kind_cons ▸ ht)]
    exact bind_eq_ok.2 ⟨o, s', ho, spanFrom_pure_eq_ok.2 ⟨rfl, rfl⟩⟩
  | @between t t' ns ls hs negated l y hn ht hl ht' hy =>
    obtain ⟨s₁, h₁, h₂⟩ := h.split
    obtain ⟨s₂, h₃, h₄⟩ := h₂.next_cons.split
    have hk := h₂.kind_cons.trans ht
    have hk' := h₄.kind_cons.trans ht'
    obtain ⟨low, hlow, rfl⟩ := hx.complete h₃ hl (Cursor.endsOperand_of hk' rfl nofun rfl rfl)
    obtain ⟨high, hhigh, rfl⟩ := hx.complete h₄.next_cons hy he.endsOperand
    refine ⟨.between span negated value low high, ?_, rfl⟩
    rw [readRest_nots hn h₁ (by rw [hk]; rfl), readNegatable_between hk]
    exact bind_eq_ok.2 ⟨low, s₂, hlow, expectKind_bind_eq_ok.2 ⟨hk', bind_eq_ok.2
      ⟨high, s', hhigh, spanFrom_pure_eq_ok.2 ⟨rfl, rfl⟩⟩⟩⟩
  | @like t p ns negated pattern hn ht hp =>
    obtain ⟨s₁, h₁, h₂⟩ := h.split
    have hk := h₂.kind_cons.trans ht
    have h₃ := h₂.next_cons
    refine ⟨.like span negated value pattern true, ?_, rfl⟩
    rw [readRest_nots hn h₁ (by rw [hk]; rfl), readNegatable_like hk]
    exact bind_eq_ok.2 ⟨pattern, s', readPattern_eq_ok.2 ⟨h₃.kind_cons.trans hp, h₃.next_single⟩,
      spanFrom_pure_eq_ok.2 ⟨rfl, rfl⟩⟩
  | @ilike t p ns negated w pattern hallow hn ht hw hp =>
    obtain ⟨s₁, h₁, h₂⟩ := h.split
    have hk := h₂.kind_cons.trans ht
    have h₃ := h₂.next_cons
    refine ⟨.like span negated value pattern false, ?_, rfl⟩
    have hstart : startsNegatable g (s₁.kind 0) = true := by
      rw [hk]
      exact Bool.and_eq_true_iff.2 ⟨hw, hallow⟩
    rw [readRest_nots hn h₁ hstart, readNegatable_ilike hk hw hallow]
    exact bind_eq_ok.2 ⟨pattern, s', readPattern_eq_ok.2 ⟨h₃.kind_cons.trans hp, h₃.next_single⟩,
      spanFrom_pure_eq_ok.2 ⟨rfl, rfl⟩⟩
  | @isNull t n ns negated ht hn hnull =>
    refine ⟨.isNull span negated value, ?_, rfl⟩
    have hk := h.kind_cons.trans ht
    have h₁ := h.next_cons
    cases hn with
    | no =>
      have hk' := h₁.kind_cons.trans hnull
      rw [readRest_is hk (by rw [hk']; nofun)]
      exact readNull_eq_ok.2 ⟨hk', h₁.next_single, rfl⟩
    | yes hnot =>
      have h₂ := h₁.next_cons
      rw [readRest_isNot hk (h₁.kind_cons.trans hnot)]
      exact readNull_eq_ok.2 ⟨h₂.kind_cons.trans hnull, h₂.next_single, rfl⟩
  | @inList t p p' ns cs negated choices item hn ht hp level hcs hp' =>
    obtain ⟨s₁, h₁, h₂⟩ := h.split
    have hk := h₂.kind_cons.trans ht
    obtain ⟨os, hos, rfl⟩ := readChoices_complete hb level hcs hp hp' h₂.next_cons
    refine ⟨.inList span negated value os, ?_, rfl⟩
    rw [readRest_nots hn h₁ (by rw [hk]; rfl), readNegatable_inList hk]
    exact bind_eq_ok.2 ⟨os, s', hos, spanFrom_pure_eq_ok.2 ⟨rfl, rfl⟩⟩
  | @call name args hcall =>
    obtain rfl := h.eq_of_nil
    cases value with
    | call span' name' args' =>
      rw [Operand.bare] at hcall
      cases hcall
      exact ⟨_, readRest_call he, rfl⟩
    | _ => cases hcall

theorem fits_rest (hx : Fits Cursor.EndsOperand Operand.bare operand x)
    (hb : FitsBelow Cursor.EndsOperand Operand.bare inner below) :
    Fits Cursor.EndsPredicate Condition.bare (Grammar.Said g operand inner value.bare)
      (readRest g x below start value) :=
  ⟨readRest_sound hx hb, readRest_complete hx hb⟩

end Condition

/-! ## Where the value ends -/

namespace Grammar

variable {g : Grammar} {s s' : Cursor} {ts : List Token} {inner : Option (Category Operand)}
  {x : Operand} {c : Condition} {n : Nat} {operand : Category Operand}

/-- `ILIKE` has a meaning in older dialects, and is no part of a geometry. -/
theorem ilike_word {w : String} (h : sameWord w "ILIKE" = true) :
    (legacyHint? w).isSome = true ∧ isGeometryTag w = false := by
  have hword (other : String) : sameWord other w = sameWord other "ILIKE" := by
    rw [sameWord_comm other, Operand.sameWord_of_sameWord h, sameWord_comm]
  have hmem : ("ilike", "ILIKE is not part of CQL2; use LIKE with casei()") ∈ legacyHints := by
    simp [legacyHints]
  have hilike : sameWord "ilike" w = true := by
    rw [hword, sameWord_iff]
    decide +kernel
  constructor
  · rw [legacyHint?, Option.isSome_map, List.find?_isSome]
    exact ⟨_, hmem, hilike⟩
  · simp only [isGeometryTag, hword]
    decide +kernel

theorem Nots.kinds {negated : Bool} {ns us : List Token} {t : Token} (hn : Nots negated ns)
    (ht : s.Takes (ns ++ t :: us) s') :
    s.kind 0 = t.kind ∨ s.kind 0 = .keyword .not ∧ s.kind 1 = t.kind := by
  cases hn with
  | no => exact .inl ht.kind_cons
  | yes hnot =>
    rw [← Cursor.kind_next]
    exact .inr ⟨ht.kind_cons.trans hnot, ht.next_cons.kind_cons⟩

theorem atOperator_of_comparison {op : ComparisonOp}
    (h : Condition.comparisonOp? (s.kind 0) = some op) : Condition.atOperator s = true := by
  rw [Condition.atOperator]
  generalize s.kind 0 = k at h
  cases k with
  | mark m => cases m <;> first | rfl | cases h
  | _ => cases h

/-- Nothing is said about a call, or what is said starts with an operator that goes on with the
value. Behind a group `NOT ILIKE` is not recognised as one. -/
theorem Said.first (h : Said g operand inner x ts c) (ht : s.Takes ts s') :
    (ts = [] ∧ s = s' ∧ ∃ name args, x = .call nowhere name args ∧ c = .call nowhere name args) ∨
      Condition.endsPredicate (s.kind 0) = false ∧
        (Condition.atOperator s = true ∨ StartsNotIlike ts) := by
  cases h with
  | compare hop hy =>
    rw [← ht.kind_cons] at hop
    exact .inr ⟨Condition.endsPredicate_of_comparison hop, .inl (atOperator_of_comparison hop)⟩
  | between hn hk =>
    rw [Condition.atOperator]
    rcases hn.kinds ht with h | ⟨h, h'⟩
    · rw [h, hk]
      exact .inr ⟨rfl, .inl rfl⟩
    · rw [h, h', hk]
      exact .inr ⟨rfl, .inl rfl⟩
  | like hn hk =>
    rw [Condition.atOperator]
    rcases hn.kinds ht with h | ⟨h, h'⟩
    · rw [h, hk]
      exact .inr ⟨rfl, .inl rfl⟩
    · rw [h, h', hk]
      exact .inr ⟨rfl, .inl rfl⟩
  | inList hn hk =>
    rw [Condition.atOperator]
    rcases hn.kinds ht with h | ⟨h, h'⟩
    · rw [h, hk]
      exact .inr ⟨rfl, .inl rfl⟩
    · rw [h, h', hk]
      exact .inr ⟨rfl, .inl rfl⟩
  | ilike hallow hn hk hw =>
    cases hn with
    | no =>
      rw [Condition.atOperator, ht.kind_cons, hk]
      exact .inr ⟨rfl, .inl (ilike_word hw).1⟩
    | yes hnot =>
      rw [ht.kind_cons, hnot]
      exact .inr ⟨rfl, .inr ⟨_, _, _, _, rfl, hnot, hk, hw⟩⟩
  | isNull hk =>
    rw [Condition.atOperator, ht.kind_cons, hk]
    exact .inr ⟨rfl, .inl rfl⟩
  | call hx => exact .inl ⟨rfl, ht.eq_of_nil, _, _, hx, rfl⟩

/-- The value ends in front of what is said about it. -/
theorem Said.endsOperand (h : Said g (g.IsOperand n) inner x ts c) (ht : s.Takes ts s')
    (he : s'.EndsPredicate) : s.EndsOperand := by
  have hkeyword {k : Keyword} (hk : s.kind 0 = .keyword k) : s.EndsOperand :=
    Cursor.endsOperand_of hk rfl nofun rfl rfl
  have hnots {negated : Bool} {ns us : List Token} {t : Token} {k : Keyword} (hn : Nots negated ns)
      (ht : s.Takes (ns ++ t :: us) s') (hk : t.kind = .keyword k) : s.EndsOperand := by
    rcases hn.kinds ht with h | ⟨h, -⟩
    · exact hkeyword (h.trans hk)
    · exact hkeyword h
  cases h with
  | @compare t us op y hop hy =>
    rw [← ht.kind_cons] at hop
    -- a number behind the comparison is no reference system: no semicolon follows it
    have hprefix (w : String) (hw : s.kind 1 = .number w) : s.kind 2 ≠ .mark .semicolon := by
      rw [← Cursor.kind_next] at hw ⊢
      rcases IsOperand.second_number hy ht.next_cons hw with hop | heq
      · rcases Operand.isOperator_cases hop with h | h | h | h <;> rw [h] <;> nofun
      · rw [heq]
        exact he.noSemicolon
    cases hk : s.kind 0 with
    | mark m =>
      rw [hk] at hop
      cases m <;> first
        | cases hop; done
        | exact ⟨⟨⟨by rw [hk]; rfl, fun _ => hprefix⟩, by rw [hk]; rfl⟩, by rw [hk]; rfl⟩
    | _ =>
      rw [hk] at hop
      cases hop
  | between hn hk => exact hnots hn ht hk
  | like hn hk => exact hnots hn ht hk
  | inList hn hk => exact hnots hn ht hk
  | ilike hallow hn hk hw =>
    cases hn with
    | no =>
      exact Cursor.endsOperand_of (ht.kind_cons.trans hk) (ilike_word hw).2 nofun rfl rfl
    | yes hnot => exact hkeyword (ht.kind_cons.trans hnot)
  | isNull hk => exact hkeyword (ht.kind_cons.trans hk)
  | call =>
    obtain rfl := ht.eq_of_nil
    exact he.endsOperand

end Grammar

/-! ## Whole predicates -/

namespace Condition

variable {g : Grammar} {s s₁ s' : Cursor} {xs ts : List Token} {n : Nat} {o : Operand}
  {inner : Option (Category Operand)} {below : Option (Reader Operand)} {c : Condition}

theorem refuseRemoved_eq_ok {u : Unit} (h : refuseRemoved s = .ok (u, s')) : s' = s := by
  rw [refuseRemoved, get_bind] at h
  cases hk : s.kind 0 with
  | keyword k =>
    rw [hk] at h
    cases k <;> first | exact (pure_eq_ok.1 h).2.symm | cases h
  | identifier w =>
    rw [hk] at h
    obtain ⟨-, h⟩ | ⟨-, h⟩ := ite_eq_ok.1 h
    · exact absurd h failHere_ne_ok
    · exact (pure_eq_ok.1 h).2.symm
  | _ =>
    rw [hk] at h
    exact (pure_eq_ok.1 h).2.symm

/-- Nothing is refused where an operand starts whose first word does not end a condition. -/
theorem refuseRemoved_eq (h : Operand.mayStart g (s.kind 0) = true)
    (hw : ∀ w, s.kind 0 = .identifier w → endsPredicate (s.kind 1) = false) :
    refuseRemoved s = .ok ((), s) := by
  rw [refuseRemoved, get_bind]
  cases hk : s.kind 0 with
  | keyword k =>
    rw [hk] at h
    cases k <;> first | rfl | cases h
  | identifier w =>
    simp only [hw w hk, Bool.and_false, Bool.false_eq_true, if_false]
    rfl
  | _ => rfl

theorem readPredicate_sound (hb : FitsBelow Cursor.EndsOperand Operand.bare inner below)
    (hf : s.finish.kind = .finish)
    (h : readPredicate g (Operand.read g n) below s = .ok (c, s')) :
    ∃ xs ts x s₁, g.IsOperand n xs x ∧ s.Takes xs s₁ ∧
      Grammar.Said g (g.IsOperand n) inner x ts c.bare ∧ s₁.Takes ts s' := by
  rw [readPredicate_eq] at h
  obtain ⟨u, s₀, hr, h'⟩ := bind_eq_ok.1 h
  obtain rfl := refuseRemoved_eq_ok hr
  obtain ⟨value, s₁, hv, h⟩ := bind_eq_ok.1 ((peek_bind).symm.trans h')
  obtain ⟨xs, hxs, hx⟩ := (Operand.fits_read g n).sound hf hv
  obtain ⟨ts, hts, hsaid⟩ := (fits_rest (Operand.fits_read g n) hb).sound hxs.finish' h
  exact ⟨xs, ts, value.bare, s₁, hx, hxs, hsaid, hts⟩

theorem readPredicate_complete (hb : FitsBelow Cursor.EndsOperand Operand.bare inner below)
    (hx : g.IsOperand n xs o) (hxs : s.Takes xs s₁)
    (hs : Grammar.Said g (g.IsOperand n) inner o ts c) (hts : s₁.Takes ts s')
    (he : s'.EndsPredicate) :
    ∃ a, readPredicate g (Operand.read g n) below s = .ok (a, s') ∧ a.bare = c := by
  have hstart : Operand.mayStart g (s.kind 0) = true := by
    obtain ⟨t, us, rfl, ht⟩ := Grammar.IsOperand.startsWith n hx
    exact hxs.kind_cons ▸ ht
  -- a word alone is no call, so something is said about it
  have hword (w : String) (hw : s.kind 0 = .identifier w) : endsPredicate (s.kind 1) = false := by
    rcases Grammar.IsOperand.second_word hx hxs hw with h | ⟨h, hno⟩
    · exact h
    · rcases hs.first hts with ⟨-, -, name, args, rfl, -⟩ | ⟨h', -⟩
      · exact absurd rfl (hno name args)
      · rw [h]
        exact h'
  obtain ⟨value, hv, rfl⟩ := (Operand.fits_read g n).complete hxs hx (hs.endsOperand hts he)
  obtain ⟨a, ha, rfl⟩ := readRest_complete (Operand.fits_read g n) hb hts hs he
  refine ⟨a, ?_, rfl⟩
  rw [readPredicate_eq, bind_of_ok (refuseRemoved_eq hstart hword)]
  exact bind_eq_ok.2 ⟨s.token 0, s, rfl, bind_eq_ok.2 ⟨value, s₁, hv, ha⟩⟩

end Condition

end FeatureFilter
