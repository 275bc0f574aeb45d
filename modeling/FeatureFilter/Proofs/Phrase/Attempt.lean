import FeatureFilter.Proofs.Phrase.Predicate

/-!
# Two attempts at a parenthesis

An opening parenthesis may start a group of conditions or an operand. When an operand stands in the
parentheses the attempt at a group fails, no later than where they close, and what is announced of
the predicate comes of the second attempt. When neither succeeds the error that got further is kept,
and it tells of the obstacle that was announced.
-/

namespace FeatureFilter

variable {g : Grammar} {v : Vocabulary} {lo room : Nat} {s : Cursor} {qs : List Piece}

/-- Nothing is read. The error tells of the obstacle, or stands before byte `limit` when there is
none. -/
def Grammar.Refuses (lo : Nat) (v : Verdict) (limit : Nat) :
    Except SyntaxError (α × Cursor) → Prop :=
  Outcome (fun _ _ => False) fun e =>
    lo ≤ e.span.start ∧ (v ≠ .fits → e.verdict = v) ∧ (v = .fits → e.span.start < limit)

theorem Outcome.error_of_false {bad : SyntaxError → Prop} {r : Except SyntaxError (α × Cursor)}
    (h : Outcome (fun _ _ => False) bad r) : ∃ e, r = .error e ∧ bad e := by
  match r, h with
  | .error e, h => exact ⟨e, rfl, h⟩

namespace Condition

open Operand (ReadsAll reads_operand reads_operand_past firstFactor restFactors pieces_firstFactor)

/-! ## Which attempts are made -/

variable {operand : Reader Operand} {belowOperand : Option (Reader Operand)}
  {below : Option (Reader Condition)} {ps : List Piece} {group predicate : Reader Condition}

theorem readNegationOver_operand (h : s.At g lo ps) (hs : startsOperand (kindAt ps 0) = true) :
    readNegationOver g operand belowOperand below s =
      readPrimary g operand belowOperand (below.map readChains) s := by
  have hk : (s.token 0).kind ≠ .keyword .not := by
    intro he
    have he' : kindAt ps 0 = .keyword .not := (h.kind_eq 0).symm.trans he
    rw [he'] at hs
    cases hs
  rw [readNegationOver, Reader.bind_of_ok (show Reader.peek s = .ok (s.token 0, s) from rfl),
    if_neg hk]

theorem readPrimary_factor (h : s.At g lo ps) (hs : startsFactor (kindAt ps 0) = true) :
    readPrimary g operand belowOperand below s = readPredicate g operand belowOperand s := by
  have hk : groupClose g s = .ok (none, s) := by
    rw [groupClose, Reader.bind_of_ok (show Reader.peekKind s = .ok (s.kind 0, s) from rfl),
      h.kind_eq 0]
    revert hs
    generalize kindAt ps 0 = kind
    intro hs
    cases kind with
    | mark m => cases m <;> first | rfl | cases hs
    | _ => rfl
  rw [readPrimary, Reader.bind_of_ok hk]

theorem readPrimary_paren (h : s.At g lo ps) (hs : kindAt ps 0 = .mark .leftParen) :
    readPrimary g operand belowOperand below s =
      orPredicate (readGroup g below .rightParen) (readPredicate g operand belowOperand) s := by
  have hk : groupClose g s = .ok (some .rightParen, s) := by
    rw [groupClose, Reader.bind_of_ok (show Reader.peekKind s = .ok (s.kind 0, s) from rfl),
      h.kind_eq 0, hs]
    rfl
  rw [readPrimary, Reader.bind_of_ok hk]

/-- When the group cannot be read the predicate decides, unless its error is not further. -/
theorem outcome_orPredicate {good : Condition → Cursor → Prop} {bad : SyntaxError → Prop}
    {e : SyntaxError} (hg : group s = .error e) (hp : Outcome good bad (predicate s))
    (hk : ∀ e', predicate s = .error e' → e.span.start < e'.span.start ∨ bad e) :
    Outcome good bad (orPredicate group predicate s) := by
  rw [orPredicate, hg]
  match hr : predicate s with
  | .ok (c, s') =>
    rw [hr] at hp
    exact hp
  | .error e' =>
    rw [hr] at hp
    show bad (e.furthest e')
    rw [SyntaxError.furthest]
    split
    · exact hp
    · rename_i hlt
      exact (hk e' hr).resolve_left hlt

/-- What fails with its first item fails. -/
theorem outcome_readChains {item : Reader Condition} {bad : SyntaxError → Prop}
    {good : Condition → Cursor → Prop} (h : Outcome (fun _ _ => False) bad (item s)) :
    Outcome good bad (readChains item s) := by
  have hand : Outcome (fun _ _ => False) bad (readChain .and .all item s) :=
    Outcome.bind h (fun _ _ h => h.elim) fun _ h => h
  exact Outcome.bind hand (fun _ _ h => h.elim) fun _ h => h

/-! ## Operands in parentheses -/

theorem offset_mark_lt {m : Mark} (h : charsOf (.mark m :: qs) <:+ g.source.toList) :
    g.offset (.mark m :: qs) < g.offset qs := by
  have hle := g.offset_lexeme h
  have hpos : 0 < Wkt.byteLength m.text.toList := by cases m <;> decide
  rw [Piece.mark]
  omega

variable {op : ArithmeticOp} {left right : Expression}

theorem refuses_predicate (belowOperand : Option (Reader Operand)) {lo' : Nat} {w : Verdict}
    (h : s.At g lo ((Expression.arithmetic op left right).pieces ++ .mark .rightParen :: qs))
    (hx : g.Reads lo' w (.mark .rightParen :: qs)
      (Operand.Means v g · (.arithmetic op left right)) (operand s)) :
    Grammar.Refuses lo' w (g.offset qs) (readPredicate g operand belowOperand s) := by
  have hsecond (word : String) (hw : kindAt ((Expression.arithmetic op left right).pieces ++
      .mark .rightParen :: qs) 0 = .identifier word) :
      endsPredicate (kindAt ((Expression.arithmetic op left right).pieces ++
        .mark .rightParen :: qs) 1) = false :=
    second_arithmetic (R := (endsPredicate · = false)) (by intro op; cases op <;> rfl) rfl rfl
      op left right _ ⟨word, .inr hw⟩
  rw [readPredicate_of_start h (startsOperand_pieces _ _) hsecond]
  refine Outcome.bind hx (fun o s' ho => ?_) fun e he => ?_
  · obtain ⟨hw, hm, h'⟩ := ho
    obtain ⟨span, a, b, rfl⟩ := hm.arithmetic _ _ _ rfl
    have hk : s'.kind 0 = .mark .rightParen := h'.kind_eq 0
    have hfail : readRest g operand belowOperand (s.token 0) (.arithmetic span op a b) s' =
        .error (Reader.mismatch (s'.token 0) "comparison operator or predicate" none) := by
      rw [readRest, Reader.bind_of_ok (show Reader.peekKind s' = .ok (s'.kind 0, s') from rfl), hk]
      show readNegatable g operand belowOperand (s.token 0) (.arithmetic span op a b) false s' = _
      rw [readNegatable, Reader.bind_of_ok (show Reader.peekKind s' = .ok (s'.kind 0, s') from rfl),
        hk]
      rfl
    rw [hfail]
    refine ⟨h'.lo_le_token, fun hne => absurd hw hne, fun _ => ?_⟩
    show (s'.token 0).span.start < _
    rw [h'.start_token]
    exact offset_mark_lt h'.suffix
  · exact ⟨he.2.2, fun _ => he.2.1, fun hf => absurd hf he.1⟩

/-- The reader of conditions refuses operands up to a closing parenthesis. -/
def RefusesOperands (g : Grammar) (room : Nat) (r : Reader Condition) : Prop :=
  ∀ (op : ArithmeticOp) (left right : Expression),
    (Expression.arithmetic op left right).Legible g.dialect → ∀ lo s qs,
      s.At g lo ((Expression.arithmetic op left right).pieces ++ .mark .rightParen :: qs) →
        Grammar.Refuses lo ((Expression.arithmetic op left right).verdict g room)
          (g.offset qs) (r s)

theorem refuses_group (hb : Below (RefusesOperands g) room below)
    (hl : (Expression.arithmetic op left right).Legible g.dialect)
    (h : s.At g lo (groupedPieces (Expression.arithmetic op left right).pieces ++ qs)) :
    Grammar.Refuses lo (Verdict.nested ((Expression.arithmetic op left right).verdict g) room)
      (g.offset qs) (readGroup g below .rightParen s) := by
  rw [Operand.groupedPieces_append] at h
  obtain ⟨t, s', hadv, -, -, -, h'⟩ := h.advance
  refine Outcome.step hadv ?_
  cases hb with
  | none => exact ⟨h'.lo_le_token, fun _ => rfl, nofun⟩
  | some hr =>
    exact Outcome.bind (hr op left right hl lo s' qs h') (fun _ _ h => h.elim) fun _ h => h

theorem verdict_firstFactor (e : Expression) (room : Nat) :
    ∃ w, e.verdict g room = ((firstFactor e).verdictAt g 2 room).andThen w := by
  refine ⟨(Verdict.all (fun x => x.2.verdictAt g 2 room) ((e.head 1).links 2)).andThen
    (Verdict.all (fun x => x.2.verdictAt g 1 room) (e.links 1)), ?_⟩
  rw [← e.verdictAt_zero, e.verdictAt_eq 0, (e.head 1).verdictAt_eq 1, Verdict.andThen_assoc]
  rfl

theorem firstFactor_cases (e : Expression) :
    (∃ op left right, firstFactor e = .arithmetic op left right ∧
      e.pieces = groupedPieces (Expression.arithmetic op left right).pieces ++ restFactors e ∧
      ∀ (g : Grammar) (room : Nat), (firstFactor e).verdictAt g 2 room =
        Verdict.nested ((Expression.arithmetic op left right).verdict g) room) ∨
    ∀ qs, startsFactor (kindAt (e.pieces ++ qs) 0) = true := by
  have hp := pieces_firstFactor e
  by_cases hg : (firstFactor e).groupedAt 2 = true
  · left
    match hf : firstFactor e, hg with
    | .arithmetic op left right, hg =>
      refine ⟨op, left, right, rfl, ?_, fun g room => ?_⟩
      · rw [hp, hf, Expression.piecesAt, if_pos hg]
      · rw [Expression.verdictAt, hg, Verdict.bracketed_true]
  · right
    intro qs
    rw [hp, List.append_assoc]
    exact startsFactor_piecesAt (Bool.eq_false_iff.2 hg) _

/-- Both attempts at an operand that starts with a parenthesis, `w` being the verdict on the operand
in the parentheses and `limit` the place behind them. -/
theorem outcome_attempts {good : Condition → Cursor → Prop} {bad : SyntaxError → Prop} {w : Verdict}
    {limit : Nat} (hg : Grammar.Refuses lo w limit (group s)) (hp : Outcome good bad (predicate s))
    (hfits : w = .fits → ∀ e, predicate s = .error e → limit ≤ e.span.start)
    (hne : w ≠ .fits → ∀ e, e.verdict = w → lo ≤ e.span.start → bad e) :
    Outcome good bad (orPredicate group predicate s) := by
  obtain ⟨e, he, hlo, hv, hlimit⟩ := Outcome.error_of_false hg
  refine outcome_orPredicate he hp fun e' he' => ?_
  by_cases hw : w = .fits
  · exact .inl ((hlimit hw).trans_le (hfits hw e' he'))
  · exact .inr (hne hw e (hv hw) hlo)

/-- Operands in parentheses are no conditions, when this holds one level deeper. -/
theorem refusesOperands_over (hb : Below (RefusesOperands g) room (below.map readChains)) :
    RefusesOperands g room
      (readChains (readNegationOver g (Operand.read g room) belowOperand below)) := by
  intro op left right hl lo s qs h
  have hends := Operand.endsSum_rightParen qs
  have hx := reads_operand ⟨.empty, true⟩ g room _ hl lo s _ hends h
  refine outcome_readChains ?_
  rw [readNegationOver_operand h (startsOperand_pieces _ _)]
  obtain ⟨op', l, r, hff, hp, hv⟩ | hs := firstFactor_cases (.arithmetic op left right)
  · have hlf := Operand.legible_firstFactor hl
    have hkind :
        kindAt ((Expression.arithmetic op left right).pieces ++ .mark .rightParen :: qs) 0 =
        .mark .leftParen := by
      rw [hp]
      rfl
    rw [hff] at hlf
    rw [readPrimary_paren h hkind]
    obtain ⟨w, hw⟩ := verdict_firstFactor (g := g) (.arithmetic op left right) room
    rw [hv] at hw
    have hgroup := h
    rw [hp, List.append_assoc] at hgroup
    refine outcome_attempts (refuses_group hb hlf hgroup)
      (refuses_predicate belowOperand h hx) ?_ ?_
    · intro hfits e he
      have hpast := Operand.reads_operand_past (v := ⟨.empty, true⟩) hl hends h
        (by rw [hv]; exact fun hne => absurd hfits hne)
        fun _ => Nat.le_refl (g.offset (restFactors (.arithmetic op left right) ++ _))
      have := refuses_predicate belowOperand h hpast
      rw [he] at this
      exact this.1
    · intro hne e he hlo
      rw [hw, Verdict.andThen_of_ne hne]
      exact ⟨hlo, fun _ => he, fun hf => absurd hf hne⟩
  · rw [readPrimary_factor h (hs _)]
    exact refuses_predicate belowOperand h hx

theorem refusesOperands_read (g : Grammar) (room : Nat) :
    RefusesOperands g room (Condition.read g room) := by
  induction room with
  | zero => exact refusesOperands_over .none
  | succ room ih => exact refusesOperands_over (.some ih)

/-! ## Predicates -/

variable {f : Filter} {x : Expression} {rest : List Piece} {w : Nat → Verdict}

/-- A predicate is read as its verdict announces, also when its value starts with a parenthesis.
Once the value is read errors are behind it. -/
theorem reads_primary {lo' : Nat} (hsaid : Filter.Said g f x rest w) (hf : f.Legible g.dialect)
    (hbo : Below (ReadsAll v g) room belowOperand) (hb : Below (RefusesOperands g) room below)
    (hq : EndsClause qs) (h : s.At g lo (x.pieces ++ (rest ++ qs)))
    (hne : x.verdict g room ≠ .fits → lo' ≤ lo)
    (hfits : x.verdict g room = .fits → lo' ≤ g.offset (rest ++ qs)) :
    g.Reads lo' (f.verdict g room) qs (Means v g · f)
      (readPrimary g (Operand.read g room) belowOperand below s) := by
  have hr := reads_operand v g room
  have hx := hsaid.legible_value hf
  have hends := endsSum_said hsaid hq
  have hpred := reads_predicate hsaid hf hr hbo hq h ((hr x hx lo s _ hends h).raise hne hfits)
  obtain ⟨op, l, r, hff, hp, hv⟩ | hs := firstFactor_cases x
  · have hlf := Operand.legible_firstFactor hx
    have hkind : kindAt (x.pieces ++ (rest ++ qs)) 0 = .mark .leftParen := by
      rw [hp]
      rfl
    have hgroup := h
    rw [hff] at hlf
    rw [hp, List.append_assoc] at hgroup
    obtain ⟨w', hw⟩ := verdict_firstFactor (g := g) x room
    rw [hv] at hw
    rw [readPrimary_paren h hkind]
    refine outcome_attempts (refuses_group hb hlf hgroup) hpred ?_ ?_
    · intro hfactor e he
      have hpast := Operand.reads_operand_past (v := v) hx hends h
        (by rw [hv]; exact fun hne => absurd hfactor hne)
        fun _ => Nat.le_refl (g.offset (restFactors x ++ (rest ++ qs)))
      have := reads_predicate hsaid hf hr hbo hq h hpast
      rw [he] at this
      exact this.2.2
    · intro hfactor e he hlo
      have hxv :
          x.verdict g room = Verdict.nested ((Expression.arithmetic op l r).verdict g) room := by
        rw [hw, Verdict.andThen_of_ne hfactor]
      have hfv :
          f.verdict g room = Verdict.nested ((Expression.arithmetic op l r).verdict g) room := by
        rw [hsaid.verdict_eq, hxv, Verdict.andThen_of_ne hfactor]
      refine ⟨hfv ▸ hfactor, he.trans hfv.symm, (hne (hxv ▸ hfactor)).trans hlo⟩
  · rw [readPrimary_factor h (hs _)]
    exact hpred

end Condition

end FeatureFilter
