import FeatureFilter.Proofs.Descent.Loops
import FeatureFilter.Proofs.Syntax.Factors

/-!
# The procedures for operands

What each procedure follows, given that the procedures it calls follow their readers: from the same
place on those that it calls before it takes a token, and from the next token on those that it calls
later.
-/

namespace FeatureFilter

theorem Reader.map_below {α β : Type} (f : Reader α → Reader β) (x : Nat → Reader α) (n : Nat) :
    (Reader.below x n).map f = Reader.below (fun n => f (x n)) n := by
  cases n <;> rfl

namespace Descent

open Routine

variable {α β : Type} {p : Input} {s : Session} {i j d e rounds : Nat} {close : Mark}
  {name : String}
  {self : {β : Type} → Procedure β → Routine β}

/-! ## Numbers, dates and timestamps -/

theorem Follows.atNumber {k : Bool → Reader β} {k' : Bool → Routine β}
    (hk : ∀ b, Follows p j e (k b (p.cursor s.position)) (k' b s)) :
    Follows p j e ((Operand.atNumber >>= k) (p.cursor s.position))
      ((Descent.atNumber p >>= k') s) := by
  rw [Operand.atNumber_bind, p.kind_cursor]
  exact hk _

theorem follows_number (h : s.At p i d) : Does p i d .number (body p rounds self .number) s := by
  refine Follows.advance' h fun s' h' hnext => ?_
  cases hk : (p.token s.position).kind with
  | number numeral =>
    dsimp only
    cases Literal.readNumber numeral with
    | ok n => exact .pure (hnext (Input.lt_of_kind hk rfl))
    | error e => exact .fail h'
  | _ => exact .failAt h'

theorem follows_magnitude (hnumber : Answers p self i d .number) (negative : Bool)
    (h : s.At p i d) : Follows p (i + 1) d (Operand.readMagnitude negative (p.cursor s.position))
      (magnitude p (self .number) negative s) := by
  refine Follows.atNumber fun b => ?_
  cases b with
  | false => exact .failHere h
  | true =>
    refine Follows.call hnumber h (Nat.le_refl i) fun n s' h' => ?_
    cases n with
    | integer n => exact .pure h'
    | double x => exact .pure h'
    | _ => exact .failHere h'

theorem follows_ordinate (hnumber : Answers p self i d .number)
    (h : s.At p i d) : Does p i d .ordinate (body p rounds self .ordinate) s := by
  have hmagnitude (negative : Bool) (s : Session) (h : s.At p i d) :=
    follows_magnitude hnumber negative h
  refine Follows.eat h (fun s' h' => hmagnitude true s' (h'.mono (Nat.le_succ i))) ?_
  refine Follows.eat h (fun s' h' => hmagnitude false s' (h'.mono (Nat.le_succ i))) ?_
  exact hmagnitude false s h

theorem follows_envelope (hordinate : Answers p self (i + 1) d .ordinate)
    (h : s.At p i d) : Does p i d .envelope (body p rounds self .envelope) s := by
  refine Follows.advance' h fun s₀ h₀ _ => ?_
  refine Follows.expect h₀ fun s₁ h₁ => ?_
  refine Follows.call hordinate h₁ (Nat.le_refl _) fun west s₂ h₂ => ?_
  refine Follows.expect h₂ fun s₃ h₃ => ?_
  refine Follows.call hordinate h₃ (by omega) fun south s₄ h₄ => ?_
  refine Follows.expect h₄ fun s₅ h₅ => ?_
  refine Follows.call hordinate h₅ (by omega) fun east s₆ h₆ => ?_
  refine Follows.expect h₆ fun s₇ h₇ => ?_
  refine Follows.call hordinate h₇ (by omega) fun north s₈ h₈ => ?_
  refine Follows.expect h₈ fun s₉ h₉ => ?_
  exact Follows.spanned (h₉.mono (by omega))

theorem follows_quotedInstant (h : s.At p i d) :
    Does p i d .quotedInstant (body p rounds self .quotedInstant) s := by
  refine Follows.advance' h fun s₀ h₀ _ => ?_
  refine Follows.expect h₀ fun s₁ h₁ => ?_
  refine Follows.peek ?_
  cases hk : (p.token s₁.position).kind with
  | string content =>
    refine Follows.advance h₁ (Input.lt_of_kind hk rfl) fun s₂ h₂ => ?_
    refine Follows.expect h₂ fun s₃ h₃ => ?_
    exact .pure (h₃.mono (by omega))
  | _ => exact .failHere h₁

theorem follows_date (hquoted : Answers p self i d .quotedInstant)
    (h : s.At p i d) : Does p i d .date (body p rounds self .date) s := by
  refine Follows.peek ?_
  refine Follows.call hquoted h (Nat.le_refl i) fun q s₁ h₁ => ?_
  obtain ⟨t, content⟩ := q
  dsimp only
  cases Literal.readDate content with
  | ok day => exact .spanned h₁
  | error e => exact .fail h₁

theorem follows_timestamp (hquoted : Answers p self i d .quotedInstant)
    (h : s.At p i d) : Does p i d .timestamp (body p rounds self .timestamp) s := by
  refine Follows.peek ?_
  refine Follows.call hquoted h (Nat.le_refl i) fun q s₁ h₁ => ?_
  obtain ⟨t, content⟩ := q
  dsimp only
  cases Literal.readTimestamp (p.grammar.dialect.allows .naiveTimestamps) content with
  | ok instant => exact .spanned h₁
  | error e => exact .fail h₁

/-! ## Geometries -/

theorem follows_handOver {start : Token} {srid : Option Int64} (h : s.At p i d) :
    Follows p i d (Operand.handOver p.grammar srid start (p.cursor s.position))
      (handOver p srid start s) := by
  refine Follows.look (Follows.spanFrom fun span => ?_)
  dsimp only
  cases byteSlice p.grammar.source.toList start.span.start (p.cursor s.position).lastStop with
  | none => exact .fail h
  | some cs =>
    dsimp only
    cases p.grammar.readGeometry (String.ofList cs) with
    | ok shape => exact .pure h
    | error e => exact .fail h

theorem follows_geometry {srid : Option Int64} (h : s.At p i d)
    (hrounds : p.tokens.length < i + rounds) :
    Does p i d (.geometry srid) (body p rounds self (.geometry srid)) s := by
  show Follows _ _ _ (Operand.readGeometry p.grammar srid _) _
  rw [Operand.readGeometry_eq]
  refine Follows.advance' h fun s₀ h₀ hnext => ?_
  have hposition := h₀.floor_le
  refine follows_tags h₀ (by omega) (fun s₁ h₁ => follows_handOver h₁) fun s₁ h₁ => ?_
  rw [passOver_eq]
  simp only [Bool.false_eq_true, if_false, bind_assoc, pure_bind]
  refine Follows.expect h₁ fun s₂ h₂ => ?_
  have hposition := h₂.floor_le
  refine (follows_coordinates (Nat.le_refl 1) h₂ (by omega)).bind fun _ s₃ h₃ => ?_
  exact follows_handOver (h₃.mono (by omega))

theorem follows_withSrid
    (hgeometry : ∀ srid, Answers p self (i + 1) d (.geometry srid))
    (h : s.At p i d) :
    Does p i d .withSrid (body p rounds self .withSrid) s := by
  refine Follows.advance' h fun s₀ h₀ _ => ?_
  refine Follows.advance' h₀ fun s₁ h₁ _ => ?_
  refine Follows.advance' h₁ fun s₂ h₂ hnext => ?_
  cases hk : (p.token s₁.position).kind with
  | number numeral =>
    have h₂ := hnext (Input.lt_of_kind hk rfl)
    dsimp only
    cases readInt64? numeral.toList with
    | none => exact .failAt h₂
    | some srid =>
      refine Follows.advance' h₂ fun s₃ h₃ _ => ?_
      refine Follows.ite (c := Operand.atGeometry (p.cursor s₃.position)) (fun _ => ?_) fun _ => ?_
      · refine Follows.call (hgeometry (some srid)) h₃ (Nat.le_refl _) fun inner s₄ h₄ => ?_
        exact Follows.spanned (h₄.mono (by omega))
      · exact .failHere h₃
  | _ => exact .failAt h₂

/-! ## Calls and intervals -/

theorem follows_call
    (hsum : Answers p self (i + 1) (d + 1) .sum)
    (h : s.At p i d) (hrounds : p.tokens.length ≤ i + rounds) :
    Does p i d (.call name) (body p rounds self (.call name)) s := by
  refine Follows.ite (fun _ => .failHere h) fun _ => ?_
  refine Follows.advance' h fun s₀ h₀ _ => ?_
  refine Follows.expect h₀ fun s₁ h₁ => ?_
  refine Follows.enter h₁ fun s₂ h₂ => ?_
  refine Follows.eat h₂ (fun s₃ h₃ => ?_) ?_
  · exact Follows.leave h₃ fun s₄ h₄ => .spanned (h₄.mono (by omega))
  · refine (follows_commaList hsum h₂ (by omega)).bind fun args s₃ h₃ => ?_
    refine Follows.expectKind h₃ rfl fun s₄ h₄ => ?_
    exact Follows.leave h₄ fun s₅ h₅ => .spanned (h₅.mono (by omega))

theorem follows_interval
    (hbound : Answers p self (i + 1) (d + 1) .bound)
    (h : s.At p i d) :
    Does p i d .interval (body p rounds self .interval) s := by
  refine Follows.advance' h fun s₀ h₀ _ => ?_
  refine Follows.expect h₀ fun s₁ h₁ => ?_
  refine Follows.enter h₁ fun s₂ h₂ => ?_
  refine Follows.call hbound h₂ (Nat.le_refl _) fun first s₃ h₃ => ?_
  refine Follows.expect h₃ fun s₄ h₄ => ?_
  refine Follows.call hbound h₄ (by omega) fun last s₅ h₅ => ?_
  refine Follows.expect h₅ fun s₆ h₆ => ?_
  exact Follows.leave h₆ fun s₇ h₇ => .spanned (h₇.mono (by omega))

theorem follows_bound
    (hsum : Answers p self i d .sum) (h : s.At p i d) :
    Does p i d .bound (body p rounds self .bound) s := by
  have hread := (hsum s h).mono (Nat.succ_le_succ h.floor_le)
  cases hk : p.kind s.position with
  | string content =>
    have hbody : body p rounds self .bound s =
        ((p.grammar.stringBound? (p.token s.position).span content).elim (self .sum) fun bound =>
          advance p >>= fun _ => pure bound) s := by
      show (peek p >>= _ : Routine Operand) s = _
      rw [peek_bind, show (p.token s.position).kind = _ from hk]
    show Follows _ _ _ (Operand.readBound _ _ _) _
    rw [hbody, Operand.readBound_eq (by rwa [p.kind_cursor]), p.token_cursor]
    cases p.grammar.stringBound? (p.token s.position).span content with
    | some bound => exact Follows.advance h (Input.lt_of_kind hk rfl) fun s' h' => .pure h'
    | none => exact hread
  | _ =>
    refine Follows.peek ?_
    rw [show (p.token s.position).kind = _ from hk]
    exact hread

/-! ## Operands -/

/-- The group starts at `i`, and what is inside at `j`. -/
theorem follows_operandGroup (hsum : Answers p self j (d + 1) .sum) (hij : i ≤ j)
    (hj : (s.advanced p).At p j d) :
    Does p i d (.operandGroup close) (body p rounds self (.operandGroup close)) s := by
  refine Follows.taken ?_
  refine Follows.enter hj fun s₁ h₁ => ?_
  refine Follows.call hsum h₁ (Nat.le_refl j) fun inner s₂ h₂ => ?_
  refine Follows.expect h₂ fun s₃ h₃ => ?_
  exact Follows.leave h₃ fun s₄ h₄ => .spanned (h₄.mono (by omega))

theorem follows_word (hsrid : Answers p self i d .withSrid)
    (hgeometry : Answers p self i d (.geometry none)) (henvelope : Answers p self i d .envelope)
    (hdate : Answers p self i d .date) (htimestamp : Answers p self i d .timestamp)
    (hinterval : Answers p self i d .interval) (hcall : Answers p self i d (.call name))
    (h : s.At p i d) (hlt : s.position < p.tokens.length) :
    Does p i d (.word name) (body p rounds self (.word name)) s := by
  have hanswers {c : Procedure Operand} (hc : Answers p self i d c) : Does p i d c (self c) s :=
    (hc s h).mono (Nat.succ_le_succ h.floor_le)
  refine Follows.look ?_
  refine Follows.ite (fun _ => hanswers hsrid) fun _ => ?_
  refine Follows.ite (fun _ => hanswers hgeometry) fun _ => ?_
  refine Follows.ite (fun _ => Follows.advance h hlt fun s' h' => .pure h') fun _ => ?_
  refine Follows.ite (fun _ => hanswers henvelope) fun _ => ?_
  refine Follows.ite (fun _ => hanswers hdate) fun _ => ?_
  refine Follows.ite (fun _ => hanswers htimestamp) fun _ => ?_
  exact Follows.ite (fun _ => hanswers hinterval) fun _ => hanswers hcall

theorem follows_primary (hnumber : Answers p self i d .number)
    (hgroup : ∀ close, s.position < p.tokens.length →
      Does p i d (.operandGroup close) (self (.operandGroup close)) s)
    (hword : ∀ name, s.position < p.tokens.length → Does p i d (.word name) (self (.word name)) s)
    (h : s.At p i d) : Does p i d .primary (body p rounds self .primary) s := by
  refine Follows.peek ?_
  cases hk : (p.token s.position).kind with
  | number numeral => exact Follows.call hnumber h (Nat.le_refl i) fun n s' h' => .pure h'
  | string content => exact Follows.advance h (Input.lt_of_kind hk rfl) fun s' h' => .pure h'
  | quotedIdentifier name => exact Follows.advance h (Input.lt_of_kind hk rfl) fun s' h' => .pure h'
  | identifier name => exact hword name (Input.lt_of_kind hk rfl)
  | keyword k =>
    cases k with
    | isTrue | isFalse => exact Follows.advance h (Input.lt_of_kind hk rfl) fun s' h' => .pure h'
    | _ => exact .failHere h
  | mark m =>
    cases m with
    | leftParen => exact hgroup .rightParen (Input.lt_of_kind hk rfl)
    | leftBracket =>
      exact Follows.ite (fun _ => hgroup .rightBracket (Input.lt_of_kind hk rfl))
        fun _ => .failHere h
    | _ => exact .failHere h
  | finish => exact .failHere h

theorem readFactor_eq (g : Grammar) (n : Nat) :
    Operand.readFactor g n = Operand.readFactorOver g (Reader.below (Operand.readFactor g) n) := by
  cases n <;> rfl

theorem follows_factor (hprimary : Answers p self i d .primary)
    (hnumber : Answers p self (i + 1) d .number) (hfactor : Answers p self (i + 1) (d + 1) .factor)
    (h : s.At p i d) : Does p i d .factor (body p rounds self .factor) s := by
  show Follows _ _ _ (Operand.readFactor p.grammar _ _) _
  rw [readFactor_eq, Operand.readFactorOver]
  refine Follows.peekKind ?_
  cases hs : Operand.sign? (p.kind s.position) with
  | none =>
    dsimp only
    rw [Reader.map_below]
    exact (hprimary s h).mono (Nat.succ_le_succ h.floor_le)
  | some negative =>
    have hlt : s.position < p.tokens.length :=
      Input.lt_of_ne_finish fun hk => by rw [hk] at hs; cases hs
    refine Follows.advance h hlt fun s₁ h₁ => ?_
    refine Follows.atNumber fun atNumber => ?_
    cases atNumber with
    | true =>
      exact Follows.call hnumber h₁ (Nat.le_refl _) fun n s₂ h₂ => .spanned (h₂.mono (by omega))
    | false =>
      refine Follows.enter h₁ fun s₂ h₂ => ?_
      refine Follows.call hfactor h₂ (Nat.le_refl _) fun operand s₃ h₃ => ?_
      refine Follows.leave h₃ fun s₄ h₄ => ?_
      exact Follows.ite (fun _ => .pure (h₄.mono (by omega))) fun _ => .pure (h₄.mono (by omega))

theorem follows_product (hfactor : Answers p self i d .factor) (h : s.At p i d)
    (hrounds : p.tokens.length ≤ i + rounds) :
    Does p i d .product (body p rounds self .product) s :=
  follows_operators rfl hfactor h hrounds

theorem follows_sum (hproduct : Answers p self i d .product) (h : s.At p i d)
    (hrounds : p.tokens.length ≤ i + rounds) : Does p i d .sum (body p rounds self .sum) s :=
  follows_operators rfl hproduct h hrounds

end Descent

end FeatureFilter
