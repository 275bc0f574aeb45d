import FeatureFilter.Proofs.Phrase.Outcome
import FeatureFilter.Proofs.Syntax.Conditions

/-!
# No number is refused

A reader complains about the text of a number only where a number token does not resolve. Where all
number tokens ahead do, readers take tokens off the front, so that the same holds of what they
leave, and their errors are others (`AcceptsNumbers`). What a group leaves behind when its attempt
fails is read again from the same tokens, so nothing depends on which attempt an error comes from.
-/

namespace FeatureFilter

open Reader

def Token.Resolves (t : Token) : Prop :=
  ∀ w, t.kind = .number w → ∃ l, Literal.readNumber w = .ok l

/-- All number tokens ahead resolve. -/
structure Cursor.Resolves (s : Cursor) : Prop where
  ahead : ∀ t ∈ s.ahead, t.Resolves
  finish : s.finish.kind = .finish

/-- The error says nothing about the text of a number: where a number was expected there was none.
-/
def SyntaxError.AcceptsNumbers (e : SyntaxError) : Prop := e.expected = "number" → e.hint = none

theorem SyntaxError.AcceptsNumbers.ne {e : SyntaxError} (h : e.AcceptsNumbers) (t : Token)
    (reason : LiteralError) : e ≠ Operand.literalError t "number" reason := by
  rintro rfl
  cases h rfl

/-- Where all number tokens ahead resolve the reader refuses none of them. -/
def AcceptsNumbers (x : Reader α) : Prop :=
  ∀ s : Cursor, s.Resolves → Outcome (fun _ s' => s'.Resolves) SyntaxError.AcceptsNumbers (x s)

namespace Cursor.Resolves

variable {s : Cursor}

theorem token (h : s.Resolves) : (s.token 0).Resolves := by
  obtain ⟨ahead, stop, finish⟩ := s
  cases ahead with
  | nil =>
    intro w hw
    cases hw.symm.trans h.finish
  | cons t ts => exact h.ahead t (List.mem_cons_self ..)

theorem next (h : s.Resolves) : s.next.Resolves := by
  obtain ⟨ahead, stop, finish⟩ := s
  cases ahead with
  | nil => exact h
  | cons t ts => exact ⟨fun u hu => h.ahead u (List.mem_cons_of_mem _ hu), h.finish⟩

end Cursor.Resolves

namespace AcceptsNumbers

variable {β γ : Type} {x : Reader α} {f : α → Reader β} {t : Token} {expected : String}
  {hint : Option String}

theorem pure (a : α) : AcceptsNumbers (Pure.pure a : Reader α) := fun _ h => h

theorem bind (hx : AcceptsNumbers x) (hf : ∀ a, AcceptsNumbers (f a)) :
    AcceptsNumbers (x >>= f) :=
  fun s h => Outcome.bind (hx s h) (fun a s' h' => hf a s' h') fun _ he => he

theorem get : AcceptsNumbers (MonadState.get : Reader Cursor) := fun _ h => h

theorem peek : AcceptsNumbers Reader.peek := fun _ h => h

theorem peekKind : AcceptsNumbers Reader.peekKind := fun _ h => h

theorem spanFrom : AcceptsNumbers (Reader.spanFrom t) := fun _ h => h

theorem advance : AcceptsNumbers Reader.advance := by
  intro s h
  have hnext := h.next
  obtain ⟨ahead, stop, finish⟩ := s
  cases ahead <;> exact hnext

theorem throw {e : SyntaxError} (h : e.AcceptsNumbers) : AcceptsNumbers (throw e : Reader α) :=
  fun _ _ => h

theorem failAt (h : expected = "number" → hint = none) :
    AcceptsNumbers (failAt t expected hint : Reader α) := fun _ _ => h

theorem failHere (h : expected = "number" → hint = none) :
    AcceptsNumbers (failHere expected hint : Reader α) := fun _ _ => h

theorem ite {p : Prop} [Decidable p] {y : Reader α} (hx : AcceptsNumbers x)
    (hy : AcceptsNumbers y) : AcceptsNumbers (if p then x else y) := by
  split
  · exact hx
  · exact hy

theorem eat {m : Mark} : AcceptsNumbers (Reader.eat m) :=
  .bind peekKind fun _ => .ite (.bind advance fun _ => .pure _) (.pure _)

theorem expectKind {k : TokenKind} : AcceptsNumbers (Reader.expectKind k expected) :=
  .bind peekKind fun _ => .ite (.bind advance fun _ => .pure _) (.failHere fun _ => rfl)

theorem expect {m : Mark} : AcceptsNumbers (Reader.expect m) := expectKind

theorem deeper {g : Grammar} {below : Option γ} {body : γ → Reader α}
    (h : ∀ r, below = some r → AcceptsNumbers (body r)) :
    AcceptsNumbers (deeper g below body) := by
  cases below with
  | none => exact .failHere (by simp)
  | some r => exact h r rfl

theorem repeated {step : Reader (Option α)} (h : AcceptsNumbers step) (n : Nat) :
    AcceptsNumbers (repeated step n) := by
  induction n with
  | zero => exact .pure _
  | succ n ih =>
    refine .bind h fun o => ?_
    cases o with
    | none => exact .pure _
    | some a => exact .bind ih fun _ => .pure _

theorem many {step : Reader (Option α)} (h : AcceptsNumbers step) : AcceptsNumbers (many step) :=
  .bind get fun _ => .repeated h _

theorem linked {link? : TokenKind → Option γ} (h : AcceptsNumbers x) :
    AcceptsNumbers (linked link? x) := by
  refine .bind peekKind fun k => ?_
  cases link? k with
  | none => exact .pure _
  | some b => exact .bind advance fun _ => .bind h fun _ => .pure _

theorem commaList (h : AcceptsNumbers x) : AcceptsNumbers (commaList x) :=
  .bind h fun _ => .bind (.many (.linked h)) fun _ => .pure _

end AcceptsNumbers

namespace Operand

variable {g : Grammar} {below : Option (Reader Operand)} {operand item : Reader Operand}

/-! ## Literals -/

/-- The one reader that looks at the text of a number. -/
theorem acceptsNumbers_number : AcceptsNumbers readNumber := by
  intro s h
  rw [readNumber, advance_bind]
  cases hk : (s.token 0).kind with
  | number w =>
    obtain ⟨l, hl⟩ := h.token w hk
    dsimp only
    rw [hl]
    exact h.next
  | _ => exact fun _ => rfl

theorem acceptsNumbers_atNumber : AcceptsNumbers atNumber := by
  refine .bind .peekKind fun k => ?_
  split <;> exact .pure _

theorem acceptsNumbers_magnitude (negative : Bool) : AcceptsNumbers (readMagnitude negative) := by
  refine .bind acceptsNumbers_atNumber fun _ => .ite (.bind acceptsNumbers_number fun l => ?_)
    (.failHere fun _ => rfl)
  cases l with
  | integer | double => exact .pure _
  | _ => exact .failHere fun _ => rfl

theorem acceptsNumbers_ordinate : AcceptsNumbers readOrdinate := by
  intro s h
  rw [readOrdinate_eq]
  cases sign? (s.kind 0) with
  | none => exact acceptsNumbers_magnitude false s h
  | some negative => exact acceptsNumbers_magnitude negative s.next h.next

theorem acceptsNumbers_envelope : AcceptsNumbers readEnvelope :=
  .bind .advance fun _ => .bind .expect fun _ =>
    .bind acceptsNumbers_ordinate fun _ => .bind .expect fun _ =>
    .bind acceptsNumbers_ordinate fun _ => .bind .expect fun _ =>
    .bind acceptsNumbers_ordinate fun _ => .bind .expect fun _ =>
    .bind acceptsNumbers_ordinate fun _ => .bind .expect fun _ =>
    .bind .spanFrom fun _ => .pure _

theorem acceptsNumbers_quotedInstant : AcceptsNumbers readQuotedInstant := by
  refine .bind .advance fun _ => .bind .expect fun _ => .bind .peek fun t => ?_
  split
  · exact .bind .advance fun _ => .bind .expect fun _ => .pure _
  · exact .failHere fun _ => rfl

theorem acceptsNumbers_date : AcceptsNumbers readDate := by
  refine .bind .peek fun _ => .bind acceptsNumbers_quotedInstant fun ⟨t, content⟩ => ?_
  dsimp only
  split
  · exact .bind .spanFrom fun _ => .pure _
  · exact .throw (by simp [SyntaxError.AcceptsNumbers, literalError, mismatch])

theorem acceptsNumbers_timestamp : AcceptsNumbers (readTimestamp g) := by
  refine .bind .peek fun _ => .bind acceptsNumbers_quotedInstant fun ⟨t, content⟩ => ?_
  dsimp only
  split
  · exact .bind .spanFrom fun _ => .pure _
  · exact .throw (by simp [SyntaxError.AcceptsNumbers, literalError, mismatch])

/-! ## Geometries -/

theorem acceptsNumbers_tag : AcceptsNumbers readTag := by
  refine .bind .peekKind fun k => ?_
  split
  · exact .ite (.bind .advance fun _ => .pure _) (.pure _)
  · exact .pure _

theorem acceptsNumbers_empty : AcceptsNumbers readEmpty := by
  refine .bind .peekKind fun k => ?_
  split
  · exact .ite (.bind .advance fun _ => .pure _) (.pure _)
  · exact .pure _

/-- The tokens passed over are taken off the front. -/
theorem closing_resolves {limit depth : Nat} {fin : Token} {ts : List Token} {s : Cursor}
    (hts : ∀ t ∈ ts, t.Resolves) (hs : s.finish.kind = .finish) :
    Outcome (fun _ s' => s'.Resolves) SyntaxError.AcceptsNumbers
      ((closing limit fin depth ts).map fun p =>
        ((), { s with ahead := p.2, lastStop := p.1 })) := by
  induction ts generalizing depth with
  | nil => exact fun _ => rfl
  | cons t ts ih =>
    have hts := (List.forall_mem_cons.1 hts).2
    rw [closing]
    split
    · split
      · exact fun _ => rfl
      · exact ih hts
    · split
      · exact ⟨hts, hs⟩
      · exact ih hts
    · exact fun _ => rfl
    · exact ih hts

theorem acceptsNumbers_passOver : AcceptsNumbers (passOver g) := by
  refine .bind .expect fun _ s h => ?_
  have hc : Outcome (fun _ s' => s'.Resolves) SyntaxError.AcceptsNumbers
      ((closing g.dialect.maxDepth s.finish 1 s.ahead).map fun p =>
        ((), { s with ahead := p.2, lastStop := p.1 })) := closing_resolves h.ahead h.finish
  rw [get_bind]
  cases hr : closing g.dialect.maxDepth s.finish 1 s.ahead with
  | error e =>
    rw [hr] at hc
    exact hc
  | ok p =>
    rw [hr] at hc
    exact hc

theorem acceptsNumbers_handOver {srid : Option Int64} {t : Token} :
    AcceptsNumbers (handOver g srid t) := by
  refine .bind .get fun s => .bind .spanFrom fun span => ?_
  split
  · exact .throw fun _ => rfl
  · dsimp only
    split
    · exact .pure _
    · exact .throw (by simp [SyntaxError.AcceptsNumbers])

theorem acceptsNumbers_geometry {srid : Option Int64} : AcceptsNumbers (readGeometry g srid) := by
  rw [readGeometry_eq]
  refine .bind .advance fun t => .bind ?_ fun empty => ?_
  · exact .bind (.many acceptsNumbers_tag) fun _ => acceptsNumbers_empty
  · cases empty with
    | true => exact acceptsNumbers_handOver
    | false => exact .bind acceptsNumbers_passOver fun _ => acceptsNumbers_handOver

theorem acceptsNumbers_withSrid : AcceptsNumbers (readWithSrid g) := by
  refine .bind .advance fun _ => .bind .advance fun _ => .bind .advance fun t => ?_
  split
  · split
    · exact .failAt fun _ => rfl
    · refine .bind .advance fun _ => .bind .get fun s => .ite ?_ (.failHere fun _ => rfl)
      exact .bind acceptsNumbers_geometry fun _ => .bind .spanFrom fun _ => .pure _
  · exact .failAt fun _ => rfl

/-! ## Calls and intervals -/

theorem acceptsNumbers_bound (ho : AcceptsNumbers operand) :
    AcceptsNumbers (readBound g operand) := by
  refine .bind .peek fun t => ?_
  split
  · dsimp only
    split
    · exact .bind .advance fun _ => .pure _
    · exact ho
  · exact ho

section Below

variable (hb : ∀ x, below = some x → AcceptsNumbers x)

include hb

theorem acceptsNumbers_call {name : String} : AcceptsNumbers (readCall g below name) := by
  refine .ite (.failHere (by simp)) (.bind .advance fun _ => .bind .expect fun _ => ?_)
  refine .deeper fun x hx => .bind .eat fun _ => .ite (.bind .spanFrom fun _ => .pure _) ?_
  exact .bind (.commaList (hb x hx)) fun _ => .bind .expectKind fun _ => .bind .spanFrom fun _ =>
    .pure _

theorem acceptsNumbers_interval : AcceptsNumbers (readInterval g below) := by
  refine .bind .advance fun _ => .bind .expect fun _ => .deeper fun x hx => ?_
  exact .bind (acceptsNumbers_bound (hb x hx)) fun _ => .bind .expect fun _ =>
    .bind (acceptsNumbers_bound (hb x hx)) fun _ => .bind .expect fun _ =>
    .bind .spanFrom fun _ => .pure _

/-! ## Operands -/

theorem acceptsNumbers_word {word : String} : AcceptsNumbers (readWord g below word) :=
  .bind .get fun _ => .ite acceptsNumbers_withSrid <| .ite acceptsNumbers_geometry <|
    .ite (.bind .advance fun _ => .pure _) <| .ite acceptsNumbers_envelope <|
    .ite acceptsNumbers_date <| .ite acceptsNumbers_timestamp <|
    .ite (acceptsNumbers_interval hb) (acceptsNumbers_call hb)

theorem acceptsNumbers_group {close : Mark} : AcceptsNumbers (readGroup g below close) :=
  .bind .advance fun _ => .deeper fun x hx => .bind (hb x hx) fun _ => .bind .expect fun _ =>
    .bind .spanFrom fun _ => .pure _

theorem acceptsNumbers_primary : AcceptsNumbers (readPrimary g below) := by
  refine .bind .peek fun t => ?_
  split
  · exact .bind acceptsNumbers_number fun _ => .pure _
  · exact .bind .advance fun _ => .pure _
  · exact .bind .advance fun _ => .pure _
  · exact .bind .advance fun _ => .pure _
  · exact acceptsNumbers_group hb
  · exact .ite (acceptsNumbers_group hb) (.failHere (by simp))
  · exact .bind .advance fun _ => .pure _
  · exact acceptsNumbers_word hb
  · exact .failHere (by simp)
  · exact .failHere fun _ => rfl

end Below

theorem acceptsNumbers_chain {op? : TokenKind → Option ArithmeticOp} (h : AcceptsNumbers item) :
    AcceptsNumbers (readChain op? item) :=
  .bind h fun _ => .bind (.many (.linked h)) fun _ => .pure _

theorem acceptsNumbers_sum (h : AcceptsNumbers item) : AcceptsNumbers (readSum item) :=
  acceptsNumbers_chain (acceptsNumbers_chain h)

theorem acceptsNumbers_factorOver (hb : ∀ x, below = some x → AcceptsNumbers x) :
    AcceptsNumbers (readFactorOver g below) := by
  refine .bind .peekKind fun k => ?_
  split
  · refine acceptsNumbers_primary fun x hx => ?_
    obtain ⟨r, hr, rfl⟩ := Option.map_eq_some_iff.1 hx
    exact acceptsNumbers_sum (hb r hr)
  · refine .bind .advance fun t => .bind acceptsNumbers_atNumber fun _ => .ite ?_ ?_
    · exact .bind acceptsNumbers_number fun _ => .bind .spanFrom fun _ => .pure _
    · exact .deeper fun x hx => .bind (hb x hx) fun _ => .ite (.pure _) (.pure _)

theorem acceptsNumbers_read (g : Grammar) (room : Nat) : AcceptsNumbers (read g room) := by
  refine acceptsNumbers_sum ?_
  induction room with
  | zero => exact acceptsNumbers_factorOver nofun
  | succ room ih =>
    refine acceptsNumbers_factorOver fun x hx => ?_
    cases hx
    exact ih

end Operand

namespace Condition

variable {g : Grammar} {operand : Reader Operand} {belowOperand : Option (Reader Operand)}
  {below : Option (Reader Condition)} {item group predicate : Reader Condition} {start : Token}
  {value : Operand}

/-! ## Predicates -/

theorem acceptsNumbers_pattern : AcceptsNumbers readPattern := by
  refine .bind .peekKind fun k => ?_
  split
  · exact .bind .advance fun _ => .pure _
  · exact .failHere (by simp)

theorem acceptsNumbers_refuseRemoved : AcceptsNumbers refuseRemoved := by
  refine .bind .get fun s => ?_
  split
  · exact .failHere (by simp)
  · exact .ite (.failHere (by simp)) (.pure _)
  · exact .pure _

section Predicates

variable (ho : AcceptsNumbers operand) (hb : ∀ x, belowOperand = some x → AcceptsNumbers x)

include hb in
theorem acceptsNumbers_choices : AcceptsNumbers (readChoices g belowOperand) :=
  .bind .expect fun _ => .deeper fun x hx => .bind (.commaList (hb x hx)) fun _ =>
    .bind .expectKind fun _ => .pure _

include ho hb

theorem acceptsNumbers_negatable (negated : Bool) :
    AcceptsNumbers (readNegatable g operand belowOperand start value negated) := by
  refine .bind .peekKind fun k => ?_
  split
  · exact .bind .advance fun _ => .bind ho fun _ => .bind .expectKind fun _ => .bind ho fun _ =>
      .bind .spanFrom fun _ => .pure _
  · exact .bind .advance fun _ => .bind acceptsNumbers_pattern fun _ => .bind .spanFrom fun _ =>
      .pure _
  · exact .bind .advance fun _ => .bind (acceptsNumbers_choices hb) fun _ =>
      .bind .spanFrom fun _ => .pure _
  · refine .ite ?_ (.failHere ?_)
    · exact .bind .advance fun _ => .bind acceptsNumbers_pattern fun _ => .bind .spanFrom fun _ =>
        .pure _
    · split <;> simp

theorem acceptsNumbers_rest : AcceptsNumbers (readRest g operand belowOperand start value) := by
  refine .bind .peekKind fun k => ?_
  split
  · exact .pure _
  split
  · exact .bind .advance fun _ => .bind ho fun _ => .bind .spanFrom fun _ => .pure _
  split
  · exact .bind .advance fun _ => acceptsNumbers_negatable ho hb true
  · have hnull (value : Operand) (negated : Bool) : AcceptsNumbers (readNull start value negated) :=
      .bind .expectKind fun _ => .bind .spanFrom fun _ => .pure _
    exact .bind .advance fun _ => .bind .peekKind fun _ =>
      .ite (.bind .advance fun _ => hnull _ _) (hnull _ _)
  · exact .failHere (by simp)
  · exact acceptsNumbers_negatable ho hb false

theorem acceptsNumbers_predicate : AcceptsNumbers (readPredicate g operand belowOperand) := by
  rw [readPredicate_eq]
  exact .bind acceptsNumbers_refuseRemoved fun _ => .bind .peek fun _ => .bind ho fun _ =>
    acceptsNumbers_rest ho hb

end Predicates

/-! ## Groups and chains -/

theorem acceptsNumbers_groupClose : AcceptsNumbers (groupClose g) := by
  refine .bind .peekKind fun k => ?_
  split
  · exact .pure _
  · exact .ite (.pure _) (.failHere (by simp))
  · exact .pure _

theorem acceptsNumbers_group {close : Mark} (hb : ∀ x, below = some x → AcceptsNumbers x) :
    AcceptsNumbers (readGroup g below close) :=
  .bind .advance fun _ => .deeper fun x hx => .bind (hb x hx) fun _ => .bind .expect fun _ =>
    .pure _

/-- Both attempts start at the same tokens. -/
theorem acceptsNumbers_orPredicate (hg : AcceptsNumbers group) (hp : AcceptsNumbers predicate) :
    AcceptsNumbers (orPredicate group predicate) := by
  intro s h
  have hg := hg s h
  have hp := hp s h
  rw [orPredicate]
  cases hr : group s with
  | ok p =>
    rw [hr] at hg
    dsimp only
    split
    · exact hp
    · exact hg
  | error e =>
    rw [hr] at hg
    cases hr' : predicate s with
    | ok p =>
      rw [hr'] at hp
      exact hp
    | error e' =>
      rw [hr'] at hp
      show (e.furthest e').AcceptsNumbers
      rw [SyntaxError.furthest]
      split
      · exact hp
      · exact hg

theorem acceptsNumbers_primary (ho : AcceptsNumbers operand)
    (hbo : ∀ x, belowOperand = some x → AcceptsNumbers x)
    (hb : ∀ x, below = some x → AcceptsNumbers x) :
    AcceptsNumbers (readPrimary g operand belowOperand below) := by
  have hp : AcceptsNumbers (readPredicate g operand belowOperand) := acceptsNumbers_predicate ho hbo
  refine .bind acceptsNumbers_groupClose fun m => ?_
  cases m with
  | none => exact hp
  | some m => exact acceptsNumbers_orPredicate (acceptsNumbers_group hb) hp

theorem acceptsNumbers_chain {k : Keyword} {join : Span → List Condition → Condition}
    (h : AcceptsNumbers item) : AcceptsNumbers (readChain k join item) :=
  .bind h fun _ => .bind (.many (.linked h)) fun _ => .ite (.pure _) (.pure _)

theorem acceptsNumbers_chains (h : AcceptsNumbers item) : AcceptsNumbers (readChains item) :=
  acceptsNumbers_chain (acceptsNumbers_chain h)

theorem acceptsNumbers_negationOver (ho : AcceptsNumbers operand)
    (hbo : ∀ x, belowOperand = some x → AcceptsNumbers x)
    (hb : ∀ x, below = some x → AcceptsNumbers x) :
    AcceptsNumbers (readNegationOver g operand belowOperand below) := by
  refine .bind .peek fun t => .ite ?_ ?_
  · exact .bind .advance fun _ => .deeper fun x hx => .bind (hb x hx) fun _ =>
      .bind .spanFrom fun _ => .pure _
  · refine acceptsNumbers_primary ho hbo fun x hx => ?_
    obtain ⟨r, hr, rfl⟩ := Option.map_eq_some_iff.1 hx
    exact acceptsNumbers_chains (hb r hr)

theorem acceptsNumbers_read (g : Grammar) (room : Nat) : AcceptsNumbers (read g room) := by
  refine acceptsNumbers_chains ?_
  induction room with
  | zero => exact acceptsNumbers_negationOver (Operand.acceptsNumbers_read g 0) nofun nofun
  | succ room ih =>
    refine acceptsNumbers_negationOver (Operand.acceptsNumbers_read g (room + 1)) ?_ ?_
    · rintro x ⟨⟩
      exact Operand.acceptsNumbers_read g room
    · rintro x ⟨⟩
      exact ih

end Condition

/-! ## Complete texts -/

namespace Grammar

variable {g : Grammar} {tokens : List Token} {e : SyntaxError}

theorem acceptsNumbers_expectFinish : AcceptsNumbers expectFinish :=
  .bind .peekKind fun _ => .ite (.failHere (by simp)) (.pure _)

/-- Reading all tokens refuses none of the numbers among them. -/
theorem error_acceptsNumbers {x : Reader α} (hx : AcceptsNumbers x)
    (htokens : ∀ t ∈ tokens, t.Resolves)
    (he : (do
      let a ← x
      expectFinish
      return a : Reader α).run' (.ofTokens g.source tokens) = .error e) : e.AcceptsNumbers := by
  have h : AcceptsNumbers (do
      let a ← x
      expectFinish
      return a : Reader α) :=
    .bind hx fun _ => .bind acceptsNumbers_expectFinish fun _ => .pure _
  have hs := h (.ofTokens g.source tokens) ⟨htokens, rfl⟩
  rw [StateT.run'] at he
  generalize (do
    let a ← x
    expectFinish
    return a : Reader α) (.ofTokens g.source tokens) = result at hs he
  cases result with
  | ok p => cases he
  | error e' =>
    cases he
    exact hs

theorem condition_acceptsNumbers (htokens : ∀ t ∈ tokens, t.Resolves)
    (he : g.condition tokens = .error e) : e.AcceptsNumbers :=
  error_acceptsNumbers (Condition.acceptsNumbers_read g g.dialect.maxDepth) htokens he

theorem operand_acceptsNumbers (htokens : ∀ t ∈ tokens, t.Resolves)
    (he : g.operand tokens = .error e) : e.AcceptsNumbers :=
  error_acceptsNumbers (Operand.acceptsNumbers_read g g.dialect.maxDepth) htokens he

end Grammar

end FeatureFilter
