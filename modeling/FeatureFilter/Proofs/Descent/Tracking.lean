import FeatureFilter.Proofs.Descent.Procedures
import FeatureFilter.Proofs.Syntax.Groups

/-!
# Following a reader

A routine follows a reader from a session on when it reads what the reader reads and refuses what
the reader refuses, with the same error. Where it succeeds it is back in the level that it started
in, and at the place where the reader is. Where it fails nothing is known of where it is, but that
all scenes on the way were in order (`Scene.Tame`): the machine is in no level that there is not,
except on the way out of the error that says so.
-/

namespace FeatureFilter

def TokenKind.isFinish : TokenKind → Bool
  | finish => true
  | _ => false

namespace Descent

open Routine

variable {α β γ κ : Type} {p : Input} {s : Session} {i j d e : Nat}

/-! ## What readers see -/

namespace Input

@[simp] theorem token_cursor (p : Input) (i n : Nat) : (p.cursor i).token n = p.token (i + n) := by
  rw [Cursor.token, cursor, List.getElem?_drop, token]

@[simp] theorem kind_cursor (p : Input) (i n : Nat) : (p.cursor i).kind n = p.kind (i + n) :=
  congrArg Token.kind (p.token_cursor i n)

theorem next_cursor_of_lt (h : i < p.tokens.length) : (p.cursor i).next = p.cursor (i + 1) := by
  rw [cursor, cursor, List.drop_eq_getElem_cons h, Cursor.next, lastStop,
    List.getElem?_eq_getElem h]
  rfl

theorem next_cursor_of_le (h : p.tokens.length ≤ i) : (p.cursor i).next = p.cursor i := by
  rw [cursor, List.drop_eq_nil_of_le h, Cursor.next]

/-- Behind the last token there is the end. -/
theorem token_of_le (h : p.tokens.length ≤ i) : p.token i = p.finish := by
  rw [token, List.getElem?_eq_none h]
  rfl

theorem lt_of_ne_finish (h : p.kind i ≠ .finish) : i < p.tokens.length :=
  Nat.lt_of_not_le fun hle => h (congrArg Token.kind (token_of_le hle))

theorem lt_of_kind {k : TokenKind} (h : p.kind i = k) (hk : k.isFinish = false) :
    i < p.tokens.length := by
  refine lt_of_ne_finish fun hfinish => ?_
  rw [← h, hfinish] at hk
  cases hk

theorem length_cursor (p : Input) (i : Nat) : (p.cursor i).ahead.length = p.tokens.length - i :=
  List.length_drop

end Input

/-! ## Sessions in order -/

/-- The scene is in order: the position is one of the tokens or the end, and the machine is in a
level that there is, or on the way out of the error of having gone too deep. -/
structure Scene.Tame (p : Input) (x : Scene) : Prop where
  position_le : x.position ≤ p.tokens.length
  depth_le : x.depth ≤ p.maxDepth ∨
    x.depth = p.maxDepth + 1 ∧ x.leaving = some (p.tooDeep x.position)

namespace Session

def Tame (p : Input) (s : Session) : Prop := ∀ x ∈ s.scenes, x.Tame p

theorem Tame.goTo {x : Scene} (h : s.Tame p) (hx : x.Tame p) : (s.goTo x).Tame p :=
  List.forall_mem_cons.2 ⟨hx, h⟩

/-- The session goes on, at the position `floor` or behind it and in a certain level. -/
structure At (p : Input) (floor depth : Nat) (s : Session) : Prop where
  tame : s.Tame p
  calm : s.now.leaving = none
  depth_eq : s.depth = depth
  floor_le : floor ≤ s.position

/-- Whatever happened, the session can go on elsewhere. -/
theorem Tame.at_goTo (h : s.Tame p) (hj : j ≤ p.tokens.length) (he : e ≤ p.maxDepth) :
    (s.goTo ⟨j, e, none⟩).At p j e where
  tame := h.goTo ⟨hj, .inl he⟩
  calm := rfl
  depth_eq := rfl
  floor_le := Nat.le_refl j

namespace At

theorem position_le (h : s.At p i d) : s.position ≤ p.tokens.length :=
  (h.tame _ (List.mem_cons_self ..)).position_le

theorem depth_le (h : s.At p i d) : d ≤ p.maxDepth := by
  rw [← h.depth_eq]
  refine (h.tame _ (List.mem_cons_self ..)).depth_le.resolve_right fun hdeep => ?_
  rw [h.calm] at hdeep
  cases hdeep.2

theorem within (h : s.At p i d) : s.depth ≤ p.maxDepth := h.depth_eq ▸ h.depth_le

theorem mono (h : s.At p i d) (hj : j ≤ i) : s.At p j d :=
  { h with floor_le := Nat.le_trans hj h.floor_le }

theorem here (h : s.At p i d) : s.At p s.position d := { h with floor_le := Nat.le_refl _ }

/-- The session goes on elsewhere. -/
theorem goTo (h : s.At p i d) (hj : j ≤ p.tokens.length) (he : e ≤ p.maxDepth) :
    (s.goTo ⟨j, e, none⟩).At p j e := h.tame.at_goTo hj he

theorem tame_fail (h : s.At p i d) (error : SyntaxError) :
    (s.goTo { s.now with leaving := some error }).Tame p :=
  h.tame.goTo ⟨h.position_le, .inl h.within⟩

end At

/-- The session behind the next token. -/
def advanced (p : Input) (s : Session) : Session :=
  if s.position < p.tokens.length then s.goTo ⟨s.position + 1, s.depth, none⟩ else s

theorem position_advanced (h : s.position < p.tokens.length) :
    (s.advanced p).position = s.position + 1 := by
  rw [advanced, if_pos h]
  rfl

theorem next_cursor (p : Input) (s : Session) :
    (p.cursor s.position).next = p.cursor (s.advanced p).position := by
  rw [advanced]
  split
  · exact Input.next_cursor_of_lt ‹_›
  · exact Input.next_cursor_of_le (Nat.le_of_not_lt ‹_›)

namespace At

theorem advanced_of_lt (h : s.At p i d) (hlt : s.position < p.tokens.length) :
    (s.advanced p).At p (i + 1) d := by
  rw [Session.advanced, if_pos hlt, ← h.depth_eq]
  exact (h.goTo hlt h.within).mono (Nat.succ_le_succ h.floor_le)

/-- The machine is never behind the end. -/
theorem advanced (h : s.At p i d) : (s.advanced p).At p i d := by
  by_cases hlt : s.position < p.tokens.length
  · exact (h.advanced_of_lt hlt).mono (Nat.le_succ i)
  · rw [Session.advanced, if_neg hlt]
    exact h

end At

end Session

/-! ## Steps of routines -/

namespace Routine

variable {x : Routine α} {f : α → Routine β} {s' : Session}

theorem bind_of_ok {a : α} (h : x s = (.ok a, s')) : (x >>= f) s = f a s' := by
  show andThen x f s = _
  rw [andThen, h]

theorem bind_of_error {o : Halt} (h : x s = (.error o, s')) : (x >>= f) s = (.error o, s') := by
  show andThen x f s = _
  rw [andThen, h]

/-- What goes on alike ends alike. -/
theorem bind_congr_of_eq {y : Routine α} (h : x s = y s') : (x >>= f) s = (y >>= f) s' := by
  show andThen x f s = andThen y f s'
  rw [andThen, andThen, h]

theorem attempt_of_ok {a : α} (h : x s = (.ok a, s')) : attempt x s = (.ok (.ok a), s') := by
  rw [attempt, h]

theorem attempt_of_refused {error : SyntaxError} (h : x s = (.error (.refused error), s')) :
    attempt x s = (.ok (.error error), s') := by
  rw [attempt, h]

/-- Whatever comes of an attempt, the session is that of what was attempted. -/
theorem attempt_bind_snd {f : Except SyntaxError α → Routine β} (hf : ∀ r s, (f r s).2 = s) :
    ((attempt x >>= f) s).2 = (x s).2 := by
  generalize ho : x s = o
  obtain ⟨result, s'⟩ := o
  cases result with
  | ok a =>
    rw [bind_of_ok (attempt_of_ok ho)]
    exact hf _ _
  | error halt =>
    cases halt with
    | refused error =>
      rw [bind_of_ok (attempt_of_refused ho)]
      exact hf _ _
    | stalled | exhausted => rw [bind_of_error (show attempt x s = _ by rw [attempt, ho])]

end Routine

section Steps

variable {f : Token → Routine β}

theorem peek_bind : (peek p >>= f) s = f (p.token s.position) s := rfl

theorem peekKind_bind {f : TokenKind → Routine β} :
    (peekKind p >>= f) s = f (p.kind s.position) s :=
  rfl

theorem advance_eq (p : Input) (s : Session) :
    advance p s = (.ok (p.token s.position), s.advanced p) := by
  rw [Session.advanced]
  show (if s.position < p.tokens.length then _ else _ : Routine _) s = _
  split <;> rfl

theorem advance_bind : (advance p >>= f) s = f (p.token s.position) (s.advanced p) :=
  bind_of_ok (advance_eq p s)

theorem expectKind_bind {k : TokenKind} {expected : String} {f : Unit → Routine β} :
    (expectKind p k expected >>= f) s = if p.kind s.position = k then f () (s.advanced p)
      else (failHere p expected none : Routine β) s := by
  split
  · rename_i hk
    refine bind_of_ok ?_
    show (if p.kind s.position = k then _ else _ : Routine Unit) s = _
    rw [if_pos hk, advance_bind]
    rfl
  · rename_i hk
    refine bind_of_error ?_
    show (if p.kind s.position = k then _ else _ : Routine Unit) s = _
    rw [if_neg hk]
    rfl

theorem eat_bind {m : Mark} {f : Bool → Routine β} :
    (eat p m >>= f) s =
      if p.kind s.position = .mark m then f true (s.advanced p) else f false s := by
  split
  · rename_i hk
    refine bind_of_ok ?_
    show (if p.kind s.position = .mark m then _ else _ : Routine Bool) s = _
    rw [if_pos hk, advance_bind]
    rfl
  · rename_i hk
    refine bind_of_ok ?_
    show (if p.kind s.position = .mark m then _ else _ : Routine Bool) s = _
    rw [if_neg hk]
    rfl

end Steps

/-! ## Outcomes alike -/

/-- The routine does what the reader does: where it succeeds, at the position `floor` or behind it
and in a certain level. -/
inductive Follows (p : Input) (floor depth : Nat) :
    Except SyntaxError (α × Cursor) → Except Halt α × Session → Prop where
  | ok {a : α} {s : Session} (h : s.At p floor depth) :
    Follows p floor depth (.ok (a, p.cursor s.position)) (.ok a, s)
  | error {error : SyntaxError} {s : Session} (h : s.Tame p) :
    Follows p floor depth (.error error) (.error (.refused error), s)

/-- Wherever it starts from the position `floor` on, the routine does what the reader does, and
takes a token if it succeeds. -/
def Serves (p : Input) (floor depth : Nat) (x : Reader α) (m : Routine α) : Prop :=
  ∀ s, s.At p floor depth →
    Follows p (s.position + 1) depth (x (p.cursor s.position)) (m s)

/-- In the session the routine does what the procedure has to do. -/
abbrev Does (p : Input) (floor depth : Nat) (c : Procedure α) (m : Routine α) (s : Session) :
    Prop :=
  Follows p (floor + 1) depth (c.reader p.grammar (p.maxDepth - depth) (p.cursor s.position)) (m s)

/-- Wherever it is called from the position `floor` on, the procedure does what it has to do. -/
abbrev Answers (p : Input) (self : {β : Type} → Procedure β → Routine β) (floor depth : Nat)
    (c : Procedure α) : Prop :=
  Serves p floor depth (c.reader p.grammar (p.maxDepth - depth)) (self c)

theorem Serves.mono {x : Reader α} {m : Routine α} (h : Serves p i d x m) (hij : i ≤ j) :
    Serves p j d x m := fun s hs => h s (hs.mono hij)

namespace Follows

variable {x : Reader α} {m : Routine α} {k : α → Reader β} {k' : α → Routine β} {expected : String}
  {hint : Option String}

theorem pure {a : α} (h : s.At p i d) :
    Follows p i d ((pure a : Reader α) (p.cursor s.position)) ((Pure.pure a : Routine α) s) := .ok h

theorem mono {r : Except SyntaxError (α × Cursor)} {o : Except Halt α × Session}
    (h : Follows p i d r o) (hj : j ≤ i) : Follows p j d r o := by
  cases h with
  | ok h => exact .ok (h.mono hj)
  | error h => exact .error h

/-- Whether it succeeds or not, all scenes are in order. -/
theorem tame {r : Except SyntaxError (α × Cursor)} {o : Except Halt α × Session}
    (h : Follows p i d r o) : o.2.Tame p := by
  cases h with
  | ok h => exact h.tame
  | error h => exact h

theorem at_of_ok {r : Except SyntaxError (α × Cursor)} {o : Except Halt α × Session} {a : α}
    (h : Follows p i d r o) (ho : o.1 = .ok a) : o.2.At p i d := by
  cases h with
  | ok h => exact h
  | error h => cases ho

theorem bind {c : Cursor} (hx : Follows p i d (x c) (m s))
    (hk : ∀ a s', s'.At p i d → Follows p j e (k a (p.cursor s'.position)) (k' a s')) :
    Follows p j e ((x >>= k) c) ((m >>= k') s) := by
  generalize hr : x c = r at hx
  generalize ho : m s = o at hx
  cases hx with
  | ok h =>
    rw [Reader.bind_of_ok hr, bind_of_ok ho]
    exact hk _ _ h
  | error h =>
    rw [Reader.bind_of_error hr, bind_of_error ho]
    exact .error h

theorem call (hx : Serves p j d x m) (h : s.At p i d) (hj : j ≤ i)
    (hk : ∀ a s', s'.At p (i + 1) d → Follows p i' e (k a (p.cursor s'.position)) (k' a s')) :
    Follows p i' e ((x >>= k) (p.cursor s.position)) ((m >>= k') s) :=
  ((hx s (h.mono hj)).mono (Nat.succ_le_succ h.floor_le)).bind hk

theorem fail {error : SyntaxError} (h : s.At p i d) :
    Follows p j e (.error error) ((fail error : Routine α) s) := .error (h.tame_fail error)

theorem failAt {t : Token} (h : s.At p i d) :
    Follows p j e ((Reader.failAt t expected hint : Reader α) (p.cursor s.position))
      ((failAt t expected hint : Routine α) s) := fail h

theorem failHere (h : s.At p i d) :
    Follows p j e ((Reader.failHere expected hint : Reader α) (p.cursor s.position))
      ((failHere p expected hint : Routine α) s) := by
  have hfail : (Reader.failHere expected hint : Reader α) (p.cursor s.position) =
      (Reader.failAt (p.token s.position) expected hint : Reader α) (p.cursor s.position) := by
    rw [Reader.failHere, Reader.peek_bind, p.token_cursor]
    rfl
  rw [hfail]
  exact failAt h

theorem ite {c : Prop} [Decidable c] {x y : Reader α} {m l : Routine α} {cursor : Cursor}
    (hc : c → Follows p j e (x cursor) (m s)) (hn : ¬ c → Follows p j e (y cursor) (l s)) :
    Follows p j e ((if c then x else y) cursor) ((if c then m else l) s) := by
  split
  · exact hc ‹_›
  · exact hn ‹_›

/-! ### Looking and taking -/

theorem peek {k : Token → Reader β} {k' : Token → Routine β}
    (hk : Follows p j e (k (p.token s.position) (p.cursor s.position))
      (k' (p.token s.position) s)) :
    Follows p j e ((Reader.peek >>= k) (p.cursor s.position)) ((peek p >>= k') s) := by
  rw [Reader.peek_bind, p.token_cursor]
  exact hk

theorem peekKind {k : TokenKind → Reader β} {k' : TokenKind → Routine β}
    (hk : Follows p j e (k (p.kind s.position) (p.cursor s.position)) (k' (p.kind s.position) s)) :
    Follows p j e ((Reader.peekKind >>= k) (p.cursor s.position)) ((peekKind p >>= k') s) := by
  rw [Reader.peekKind_bind, p.kind_cursor]
  exact hk

theorem look {k : Cursor → Reader β} {k' : Cursor → Routine β}
    (hk : Follows p j e (k (p.cursor s.position) (p.cursor s.position))
      (k' (p.cursor s.position) s)) :
    Follows p j e (((get : Reader Cursor) >>= k) (p.cursor s.position)) ((look p >>= k') s) := hk

theorem spanFrom {t : Token} {k : Span → Reader β} {k' : Span → Routine β}
    (hk : ∀ span, Follows p j e (k span (p.cursor s.position)) (k' span s)) :
    Follows p j e ((Reader.spanFrom t >>= k) (p.cursor s.position)) ((spanFrom p t >>= k') s) :=
      hk _

theorem spanned {t : Token} {f : Span → α} (h : s.At p i d) :
    Follows p i d
      ((Reader.spanFrom t >>= fun span => (Pure.pure (f span) : Reader α)) (p.cursor s.position))
      ((Descent.spanFrom p t >>= fun span => (Pure.pure (f span) : Routine α)) s) :=
  spanFrom fun _ => pure h

theorem taken {k : Token → Reader β} {k' : Token → Routine β}
    (hk : Follows p j e (k (p.token s.position) (p.cursor (s.advanced p).position))
      (k' (p.token s.position) (s.advanced p))) :
    Follows p j e ((Reader.advance >>= k) (p.cursor s.position)) ((advance p >>= k') s) := by
  rw [Reader.advance_bind, advance_bind, p.token_cursor, s.next_cursor]
  exact hk

theorem advance {k : Token → Reader β} {k' : Token → Routine β} (h : s.At p i d)
    (hlt : s.position < p.tokens.length)
    (hk : ∀ s', s'.At p (i + 1) d →
      Follows p j e (k (p.token s.position) (p.cursor s'.position)) (k' (p.token s.position) s')) :
    Follows p j e ((Reader.advance >>= k) (p.cursor s.position)) ((Descent.advance p >>= k') s) :=
  taken (hk _ (h.advanced_of_lt hlt))

theorem advance' {k : Token → Reader β} {k' : Token → Routine β} (h : s.At p i d)
    (hk : ∀ s', s'.At p i d → (s.position < p.tokens.length → s'.At p (i + 1) d) →
      Follows p j e (k (p.token s.position) (p.cursor s'.position)) (k' (p.token s.position) s')) :
    Follows p j e ((Reader.advance >>= k) (p.cursor s.position)) ((Descent.advance p >>= k') s) :=
  taken (hk _ h.advanced h.advanced_of_lt)

theorem expectKind {kind : TokenKind} {k : Unit → Reader β} {k' : Unit → Routine β} (h : s.At p i d)
    (hne : kind.isFinish = false)
    (hk : ∀ s', s'.At p (i + 1) d → Follows p j e (k () (p.cursor s'.position)) (k' () s')) :
    Follows p j e ((Reader.expectKind kind expected >>= k) (p.cursor s.position))
      ((expectKind p kind expected >>= k') s) := by
  rw [Reader.expectKind_bind, expectKind_bind, p.kind_cursor, p.token_cursor, s.next_cursor]
  show Follows p j e (if p.kind s.position = kind then _ else _) _
  split
  · exact hk _ (h.advanced_of_lt (Input.lt_of_kind ‹_› hne))
  · exact fail h

theorem expect {m : Mark} {k : Unit → Reader β} {k' : Unit → Routine β} (h : s.At p i d)
    (hk : ∀ s', s'.At p (i + 1) d → Follows p j e (k () (p.cursor s'.position)) (k' () s')) :
    Follows p j e ((Reader.expect m >>= k) (p.cursor s.position)) ((expect p m >>= k') s) :=
  expectKind h rfl hk

theorem eat {m : Mark} {k : Bool → Reader β} {k' : Bool → Routine β} (h : s.At p i d)
    (htrue : ∀ s', s'.At p (i + 1) d → Follows p j e (k true (p.cursor s'.position)) (k' true s'))
    (hfalse : Follows p j e (k false (p.cursor s.position)) (k' false s)) :
    Follows p j e ((Reader.eat m >>= k) (p.cursor s.position)) ((eat p m >>= k') s) := by
  rw [Reader.eat_bind, eat_bind, p.kind_cursor, s.next_cursor]
  show Follows p j e (if p.kind s.position = .mark m then _ else _) _
  split
  · rename_i hm
    exact htrue _ (h.advanced_of_lt (Input.lt_of_kind hm rfl))
  · exact hfalse

/-! ### Levels -/

theorem enter {y : Nat → Reader γ} {body : Reader γ → Reader β} {k' : Unit → Routine β}
    (h : s.At p i d)
    (hk : ∀ s', s'.At p i (d + 1) →
      Follows p j e (body (y (p.maxDepth - (d + 1))) (p.cursor s'.position)) (k' () s')) :
    Follows p j e (Reader.deeper p.grammar (Reader.below y (p.maxDepth - d)) body
      (p.cursor s.position)) ((enter p >>= k') s) := by
  by_cases hdeep : p.maxDepth < s.depth + 1
  · have hd : p.maxDepth - d = 0 := by
      have := h.depth_eq
      omega
    have henter : Descent.enter p s = (.error (.refused (p.tooDeep s.position)),
        s.goTo ⟨s.position, s.depth + 1, some (p.tooDeep s.position)⟩) := by
      show (if p.maxDepth < s.depth + 1 then _ else _ : Routine Unit) s = _
      rw [if_pos hdeep]
      rfl
    have hreader : Reader.deeper p.grammar (Reader.below y 0) body (p.cursor s.position) =
        .error (p.tooDeep s.position) := by
      show (Reader.failHere _ _ : Reader β) _ = _
      rw [Reader.failHere, Reader.peek_bind, p.token_cursor]
      rfl
    rw [hd, hreader, bind_of_error henter]
    have hlast : s.depth + 1 = p.maxDepth + 1 := Nat.le_antisymm (Nat.succ_le_succ h.within) hdeep
    exact .error (h.tame.goTo ⟨h.position_le, .inr ⟨hlast, rfl⟩⟩)
  · have hd : p.maxDepth - d = p.maxDepth - (d + 1) + 1 := by
      have := h.depth_eq
      omega
    have henter : Descent.enter p s = (.ok (), s.goTo ⟨s.position, s.depth + 1, none⟩) := by
      show (if p.maxDepth < s.depth + 1 then _ else _ : Routine Unit) s = _
      rw [if_neg hdeep]
      rfl
    rw [hd, bind_of_ok henter]
    have hs := h.goTo h.position_le (Nat.le_of_not_lt hdeep)
    rw [h.depth_eq] at hs ⊢
    exact hk _ (hs.mono h.floor_le)

theorem leave {k' : Unit → Routine α} (h : s.At p i (d + 1))
    (hk : ∀ s', s'.At p i d → Follows p j e (x (p.cursor s'.position)) (k' () s')) :
    Follows p j e (x (p.cursor s.position)) ((leave >>= k') s) := by
  have hleave : Routine.leave s = (.ok (), s.goTo ⟨s.position, s.depth - 1, none⟩) := rfl
  rw [bind_of_ok hleave]
  have hs := h.goTo h.position_le (Nat.le_of_succ_le h.depth_le)
  rw [h.depth_eq]
  exact hk _ (hs.mono h.floor_le)

end Follows

end Descent

end FeatureFilter
