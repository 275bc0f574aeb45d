import FeatureFilter.Proofs.Descent.Operands

/-!
# The procedures for conditions

What each procedure follows, as for operands. Where a group is read again, the machine is back where
the group starts.
-/

namespace FeatureFilter

namespace Descent

open Routine

variable {p : Input} {s : Session} {i j d e rounds : Nat} {close : Mark}
  {self : {β : Type} → Procedure β → Routine β}

/-! ## Predicates -/

theorem follows_pattern (h : s.At p i d) : Does p i d .pattern (body p rounds self .pattern) s := by
  refine Follows.peekKind ?_
  cases hk : p.kind s.position with
  | string content => exact Follows.advance h (Input.lt_of_kind hk rfl) fun s' h' => .pure h'
  | _ => exact .failHere h

theorem follows_choices (hsum : Answers p self (i + 1) (d + 1) .sum) (h : s.At p i d)
    (hrounds : p.tokens.length ≤ i + rounds) :
    Does p i d .choices (body p rounds self .choices) s := by
  refine Follows.expect h fun s₁ h₁ => ?_
  refine Follows.enter h₁ fun s₂ h₂ => ?_
  refine (follows_commaList hsum h₂ (by omega)).bind fun choices s₃ h₃ => ?_
  refine Follows.expectKind h₃ rfl fun s₄ h₄ => ?_
  exact Follows.leave h₄ fun s₅ h₅ => .pure (h₅.mono (by omega))

theorem follows_negatable {start : Token} {value : Operand} {negated : Bool}
    (hsum : Answers p self (i + 1) d .sum) (hpattern : Answers p self (i + 1) d .pattern)
    (hchoices : Answers p self (i + 1) d .choices) (h : s.At p i d) :
    Does p i d (.negatable start value negated)
      (body p rounds self (.negatable start value negated)) s := by
  refine Follows.peekKind ?_
  cases hk : p.kind s.position with
  | keyword k =>
    have hlt := Input.lt_of_kind hk rfl
    cases k with
    | between =>
      refine Follows.advance h hlt fun s₁ h₁ => ?_
      refine Follows.call hsum h₁ (Nat.le_refl _) fun low s₂ h₂ => ?_
      refine Follows.expectKind h₂ rfl fun s₃ h₃ => ?_
      exact Follows.call hsum h₃ (by omega) fun high s₄ h₄ => .spanned (h₄.mono (by omega))
    | like =>
      refine Follows.advance h hlt fun s₁ h₁ => ?_
      exact Follows.call hpattern h₁ (Nat.le_refl _) fun _ s₂ h₂ => .spanned (h₂.mono (by omega))
    | inList =>
      refine Follows.advance h hlt fun s₁ h₁ => ?_
      exact Follows.call hchoices h₁ (Nat.le_refl _) fun _ s₂ h₂ => .spanned (h₂.mono (by omega))
    | _ => exact .failHere h
  | identifier word =>
    refine Follows.ite (fun _ => ?_) fun _ => .failHere h
    refine Follows.advance h (Input.lt_of_kind hk rfl) fun s₁ h₁ => ?_
    exact Follows.call hpattern h₁ (Nat.le_refl _) fun _ s₂ h₂ => .spanned (h₂.mono (by omega))
  | _ => exact .failHere h

theorem follows_refuseRemoved (h : s.At p i d) :
    Follows p i d (Condition.refuseRemoved (p.cursor s.position)) (refuseRemoved p s) := by
  refine Follows.look ?_
  cases (p.cursor s.position).kind 0 with
  | keyword k =>
    cases k with
    | inList => exact .failHere h
    | _ => exact .pure h
  | identifier word => exact Follows.ite (fun _ => .failHere h) fun _ => .pure h
  | _ => exact .pure h

/-- What is said about a value, in front of a token of a certain kind. -/
def readSaid (sum : Reader Operand) (negatable : Bool → Reader Condition) (start : Token)
    (value : Operand) (kind : TokenKind) : Reader Condition :=
  match Condition.comparisonOp? kind with
  | some op => do
    let _ ← Reader.advance
    let right ← sum
    return .compare (← Reader.spanFrom start) op value right
  | none =>
    match kind with
    | .keyword .not => do
      let _ ← Reader.advance
      negatable true
    | .keyword .is => do
      let _ ← Reader.advance
      let negated := (← Reader.peekKind) = .keyword .not
      if negated then
        let _ ← Reader.advance
      Reader.expectKind (.keyword .null) "NULL"
      return .isNull (← Reader.spanFrom start) negated value
    | .mark .bang =>
      Reader.failHere "comparison operator" (some "use '<>' for inequality and NOT for negation")
    | _ => negatable false

theorem follows_said (start : Token) (value : Operand) {x : Reader Operand} {m : Routine Operand}
    {y : Bool → Reader Condition} {l : Bool → Routine Condition} (hsum : Serves p i d x m)
    (hrest : ∀ negated, Serves p i d (y negated) (l negated)) (h : s.At p i d) :
    Follows p i d (readSaid x y start value (p.kind s.position) (p.cursor s.position))
      (said p m l start value (p.kind s.position) s) := by
  have hnegatable (negated : Bool) (s : Session) (h : s.At p i d) :
      Follows p i d (y negated (p.cursor s.position)) (l negated s) :=
    (hrest negated s h).mono (Nat.le_succ_of_le h.floor_le)
  unfold readSaid said
  cases hop : Condition.comparisonOp? (p.kind s.position) with
  | some op =>
    have hlt : s.position < p.tokens.length :=
      Input.lt_of_ne_finish fun hk => by rw [hk] at hop; cases hop
    refine Follows.advance h hlt fun s₁ h₁ => ?_
    exact Follows.call hsum h₁ (Nat.le_succ i) fun right s₂ h₂ => .spanned (h₂.mono (by omega))
  | none =>
    cases hk : p.kind s.position with
    | keyword k =>
      have hlt := Input.lt_of_kind hk rfl
      cases k with
      | not => exact Follows.advance h hlt fun s₁ h₁ => hnegatable true s₁ (h₁.mono (Nat.le_succ i))
      | is =>
        refine Follows.advance h hlt fun s₁ h₁ => ?_
        refine Follows.peekKind ?_
        refine Follows.ite (fun hnot => ?_) fun _ => ?_
        · refine Follows.advance h₁ (Input.lt_of_kind hnot rfl) fun s₂ h₂ => ?_
          exact Follows.expectKind h₂ rfl fun s₃ h₃ => .spanned (h₃.mono (by omega))
        · exact Follows.expectKind h₁ rfl fun s₂ h₂ => .spanned (h₂.mono (by omega))
      | _ => exact hnegatable false s h
    | mark m =>
      cases m with
      | bang => exact .failHere h
      | _ => exact hnegatable false s h
    | _ => exact hnegatable false s h

theorem follows_predicate (hsum : Answers p self i d .sum)
    (hnegatable : ∀ start value negated, Answers p self (i + 1) d (.negatable start value negated))
    (h : s.At p i d) : Does p i d .predicate (body p rounds self .predicate) s := by
  refine (follows_refuseRemoved h).bind fun _ s₁ h₁ => ?_
  refine Follows.peek ?_
  refine Follows.call hsum h₁ (Nat.le_refl i) fun value s₂ h₂ => ?_
  refine Follows.peekKind ?_
  have hsaid := follows_said (p.token s₁.position) value (hsum.mono (Nat.le_succ i))
    (hnegatable (p.token s₁.position) value) h₂
  cases value with
  | call span name args =>
    cases Condition.endsPredicate (p.kind s₂.position) with
    | true => exact .pure h₂
    | false => exact hsaid
  | _ => cases Condition.endsPredicate (p.kind s₂.position) <;> exact hsaid

/-! ## Groups -/

/-- Nothing is taken to see what closes a group. -/
theorem groupClose_cases (p : Input) (s : Session) :
    (Condition.groupClose p.grammar (p.cursor s.position) =
        .ok (p.grammar.close? (p.kind s.position), p.cursor s.position) ∧
      groupClose p s = (.ok (p.grammar.close? (p.kind s.position)), s)) ∨
    p.grammar.close? (p.kind s.position) = none ∧ ∃ error,
      Condition.groupClose p.grammar (p.cursor s.position) = .error error ∧
      groupClose p s = (fail error : Routine (Option Mark)) s := by
  by_cases hallow : p.kind s.position = .mark .leftBracket →
      p.grammar.dialect.allows .bracketGrouping = true
  · refine .inl ⟨?_, ?_⟩
    · rw [Condition.groupClose_eq (by rwa [p.kind_cursor]), p.kind_cursor]
      rfl
    · rw [groupClose, peekKind_bind]
      cases hk : p.kind s.position with
      | mark m =>
        cases m with
        | leftBracket =>
          show (if p.grammar.dialect.allows .bracketGrouping = true then _ else _ : Routine _) s = _
          rw [if_pos (hallow hk), Grammar.close?, if_pos (hallow hk)]
          rfl
        | _ => rfl
      | _ => rfl
  · rw [Classical.not_imp] at hallow
    obtain ⟨hk, hno⟩ := hallow
    refine .inr ⟨by rw [hk, Grammar.close?, if_neg hno],
      Reader.mismatch (p.token s.position) "'('" (some Operand.bracketHint), ?_, ?_⟩
    · rw [Condition.groupClose, Reader.peekKind_bind, p.kind_cursor,
        show p.kind (s.position + 0) = _ from hk]
      show (if p.grammar.dialect.allows .bracketGrouping = true then _ else _ : Reader _) _ = _
      rw [if_neg hno, Reader.failHere, Reader.peek_bind, p.token_cursor]
      rfl
    · rw [groupClose, peekKind_bind, hk]
      show (if p.grammar.dialect.allows .bracketGrouping = true then _ else _ : Routine _) s = _
      rw [if_neg hno]
      rfl

/-- The group starts at `i`, and what is inside at `j`. -/
theorem follows_conditionGroup (hcondition : Answers p self j (d + 1) .condition) (hij : i ≤ j)
    (hj : (s.advanced p).At p j d) :
    Does p i d (.conditionGroup close) (body p rounds self (.conditionGroup close)) s := by
  refine Follows.taken ?_
  refine Follows.enter hj fun s₁ h₁ => ?_
  refine Follows.call hcondition h₁ (Nat.le_refl j) fun inner s₂ h₂ => ?_
  refine Follows.expect h₂ fun s₃ h₃ => ?_
  exact Follows.leave h₃ fun s₄ h₄ => .pure (h₄.mono (by omega))

theorem follows_orPredicate {group predicate : Reader Condition} {m l : Routine Condition}
    (hgroup : Follows p (i + 1) d (group (p.cursor s.position)) (m s))
    (hpredicate : Serves p i d predicate l) (h : s.At p i d) :
    Follows p (i + 1) d (Condition.orPredicate group predicate (p.cursor s.position))
      (orPredicate p m l s) := by
  have hagain {s' : Session} (hs' : s'.Tame p) :
      Follows p (i + 1) d (predicate (p.cursor s.position))
        (l (s'.goTo ⟨s.position, s.depth, none⟩)) := by
    have hs := hs'.at_goTo h.position_le h.within
    rw [h.depth_eq] at hs ⊢
    exact (hpredicate _ (hs.mono h.floor_le)).mono (Nat.succ_le_succ h.floor_le)
  generalize hr : group (p.cursor s.position) = r at hgroup
  generalize ho : m s = o at hgroup
  rw [Condition.orPredicate, hr]
  cases hgroup with
  | @ok condition s' h' =>
    show Follows _ _ _ _ ((attempt m >>= _ : Routine Condition) s)
    rw [bind_of_ok (attempt_of_ok ho)]
    show Follows _ _ _ (if Condition.atOperator (p.cursor s'.position) = true then _ else _)
      ((if Condition.atOperator (p.cursor s'.position) = true then _ else _ : Routine Condition) s')
    split
    · exact hagain h'.tame
    · exact .ok h'
  | @error e s' h' =>
    show Follows _ _ _ _ ((attempt m >>= _ : Routine Condition) s)
    rw [bind_of_ok (attempt_of_refused ho)]
    show Follows _ _ _ _
      ((attempt l >>= _ : Routine Condition) (s'.goTo ⟨s.position, s.depth, none⟩))
    have hread := hagain h'
    generalize hr' : predicate (p.cursor s.position) = r' at hread
    generalize ho' : l (s'.goTo ⟨s.position, s.depth, none⟩) = o' at hread
    cases hread with
    | ok h₂ =>
      rw [bind_of_ok (attempt_of_ok ho')]
      exact .ok h₂
    | error h₂ =>
      rw [bind_of_ok (attempt_of_refused ho')]
      exact .error h₂

theorem follows_clause (hpredicate : Answers p self i d .predicate)
    (hgroup : ∀ close, s.position < p.tokens.length →
      Does p i d (.conditionGroup close) (self (.conditionGroup close)) s)
    (h : s.At p i d) : Does p i d .clause (body p rounds self .clause) s := by
  show Follows _ _ _ ((Condition.groupClose p.grammar >>= _ : Reader Condition) _)
    ((groupClose p >>= _ : Routine Condition) s)
  obtain ⟨hreader, hmachine⟩ | ⟨-, error, hreader, hmachine⟩ := groupClose_cases p s
  · rw [Reader.bind_of_ok hreader, bind_of_ok hmachine]
    cases hclose : p.grammar.close? (p.kind s.position) with
    | some close =>
      have hlt : s.position < p.tokens.length :=
        Input.lt_of_ne_finish fun hk => by rw [hk] at hclose; cases hclose
      exact follows_orPredicate (hgroup close hlt) hpredicate h
    | none => exact (hpredicate s h).mono (Nat.succ_le_succ h.floor_le)
  · rw [Reader.bind_of_error hreader, bind_of_error hmachine]
    exact .error (h.tame_fail error)

/-! ## Chains -/

theorem follows_negation (hclause : Answers p self i d .clause)
    (hnegation : Answers p self (i + 1) (d + 1) .negation) (h : s.At p i d) :
    Does p i d .negation (body p rounds self .negation) s := by
  show Follows _ _ _ (Condition.readNegation p.grammar _ _) _
  rw [Condition.readNegation_eq, Condition.readNegationOver]
  refine Follows.peek ?_
  refine Follows.ite (fun hnot => ?_) fun _ => ?_
  · refine Follows.advance h (Input.lt_of_kind hnot rfl) fun s₁ h₁ => ?_
    refine Follows.enter h₁ fun s₂ h₂ => ?_
    refine Follows.call hnegation h₂ (Nat.le_refl _) fun inner s₃ h₃ => ?_
    exact Follows.leave h₃ fun s₄ h₄ => .spanned (h₄.mono (by omega))
  · rw [Reader.map_below]
    exact (hclause s h).mono (Nat.succ_le_succ h.floor_le)

theorem follows_conjunction (hnegation : Answers p self i d .negation) (h : s.At p i d)
    (hrounds : p.tokens.length ≤ i + rounds) :
    Does p i d .conjunction (body p rounds self .conjunction) s :=
  follows_clauses hnegation h hrounds

theorem follows_condition (hconjunction : Answers p self i d .conjunction) (h : s.At p i d)
    (hrounds : p.tokens.length ≤ i + rounds) :
    Does p i d .condition (body p rounds self .condition) s :=
  follows_clauses hconjunction h hrounds

end Descent

end FeatureFilter
