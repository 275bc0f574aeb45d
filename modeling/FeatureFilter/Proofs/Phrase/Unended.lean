import FeatureFilter.Proofs.Syntax.Conditions

/-!
# Reading without the end of the text

The last token of a text is its end. Without it a reader comes to an end that the cursor has of its
own. Two cursors that differ in this (`Cursor.Unended`) are read alike: what is read is the same,
and so is the error where nothing is, but for the line and column of an error at the end of the text
(`Span.flattenEnd`). No reader takes a token before it has looked at its kind, so that neither end
is ever taken.
-/

namespace FeatureFilter

open Reader

variable {α β : Type} {n m : Nat}

/-! ## The end of a text -/

/-- The span, where the end of a text of `n` bytes is named as if all of them stood on the first
line, each in a column of its own. -/
def Span.flattenEnd (n : Nat) (s : Span) : Span :=
  if s.start < n then s else { s with line := 1, column := n + 1 }

theorem Span.flattenEnd_of_lt {s : Span} (h : s.start < n) : s.flattenEnd n = s := if_pos h

theorem Span.flattenEnd_eq_iff {s : Span} :
    s.flattenEnd n = s ↔ s.start < n ∨ s.line = 1 ∧ s.column = n + 1 := by
  by_cases h : s.start < n
  · exact iff_of_true (flattenEnd_of_lt h) (.inl h)
  · obtain ⟨start, stop, line, column⟩ := s
    rw [flattenEnd, if_neg h, or_iff_right h, mk.injEq]
    simp [eq_comm]

@[simp] theorem Span.start_flattenEnd (s : Span) : (s.flattenEnd n).start = s.start := by
  unfold flattenEnd
  split <;> rfl

def Token.flattenEnd (n : Nat) (t : Token) : Token := { t with span := t.span.flattenEnd n }

theorem Token.flattenEnd_of_lt {t : Token} (h : t.span.start < n) : t.flattenEnd n = t := by
  rw [flattenEnd, Span.flattenEnd_of_lt h]

namespace SyntaxError

def flattenEnd (n : Nat) (e : SyntaxError) : SyntaxError := { e with span := e.span.flattenEnd n }

theorem flattenEnd_of_lt {e : SyntaxError} (h : e.span.start < n) : e.flattenEnd n = e := by
  rw [flattenEnd, Span.flattenEnd_of_lt h]

/-- Which of two errors got further does not depend on lines and columns. -/
theorem furthest_flattenEnd (a b : SyntaxError) :
    (a.flattenEnd n).furthest (b.flattenEnd n) = (a.furthest b).flattenEnd n := by
  simp only [furthest, flattenEnd, Span.start_flattenEnd]
  split <;> rfl

end SyntaxError

/-! ## Cursors -/

/-- The second cursor is the first one without the end of a text of `n` bytes. It has at most `m`
tokens ahead, all of them inside the text. -/
structure Cursor.Unended (n m : Nat) (s t : Cursor) : Prop where
  ahead : ∃ u : Token, u.kind = .finish ∧ s.ahead = t.ahead ++ [u] ∧ t.finish = u.flattenEnd n
  lastStop : t.lastStop = s.lastStop
  finish : t.finish = s.finish
  inside : ∀ u ∈ t.ahead, u.kind ≠ .finish ∧ u.span.start < n
  bound : t.ahead.length ≤ m

namespace Cursor.Unended

variable {s t : Cursor} {k : TokenKind}

theorem mono {m' : Nat} (h : s.Unended n m t) (hm : m ≤ m') : s.Unended n m' t :=
  { h with bound := h.bound.trans hm }

/-- The number of tokens ahead is a bound of itself. -/
theorem exact (h : s.Unended n m t) : s.Unended n t.ahead.length t :=
  { h with bound := Nat.le_refl _ }

theorem length_eq (h : s.Unended n m t) : s.ahead.length = t.ahead.length + 1 := by
  obtain ⟨u, -, hs, -⟩ := h.ahead
  rw [hs, List.length_append]
  rfl

theorem kind_finish (h : s.Unended n m t) : t.finish.kind = .finish := by
  obtain ⟨u, hu, -, ht⟩ := h.ahead
  rw [ht]
  exact hu

theorem kind (h : s.Unended n m t) (i : Nat) : t.kind i = s.kind i := by
  obtain ⟨u, hu, hs, -⟩ := h.ahead
  rw [Cursor.kind, Cursor.kind, Cursor.token, Cursor.token, hs, ← h.finish, List.getElem?_append]
  split
  · rfl
  · rename_i hi
    rw [List.getElem?_eq_none (Nat.le_of_not_lt hi)]
    -- the end of the text, or what stands behind it
    cases i - t.ahead.length with
    | zero => exact h.kind_finish.trans hu.symm
    | succ => rfl

theorem token (h : s.Unended n m t) : t.token 0 = (s.token 0).flattenEnd n := by
  obtain ⟨u, -, hs, ht⟩ := h.ahead
  obtain ⟨ahead, stop, finish⟩ := t
  obtain ⟨ahead', stop', finish'⟩ := s
  obtain rfl : ahead' = ahead ++ [u] := hs
  cases ahead with
  | nil => exact ht
  | cons v ahead => exact (Token.flattenEnd_of_lt (h.inside v (List.mem_cons_self ..)).2).symm

theorem exists_cons (h : s.Unended n m t) (hk : s.kind 0 ≠ .finish) :
    ∃ v ahead, t.ahead = v :: ahead ∧ v.span.start < n := by
  cases ht : t.ahead with
  | nil =>
    obtain ⟨u, hu, hs, -⟩ := h.ahead
    rw [Cursor.kind, Cursor.token, hs, ht] at hk
    exact absurd hu hk
  | cons v ahead => exact ⟨v, ahead, rfl, (h.inside v (ht ▸ List.mem_cons_self ..)).2⟩

/-- A token inside the text starts in front of its end. -/
theorem start_lt (h : s.Unended n m t) (hk : s.kind 0 ≠ .finish) : (s.token 0).span.start < n := by
  obtain ⟨v, ahead, ht, hv⟩ := h.exists_cons hk
  obtain ⟨u, -, hs, -⟩ := h.ahead
  rw [Cursor.token, hs, ht]
  exact hv

theorem first (h : s.Unended n m t) (hk : s.kind 0 ≠ .finish) : t.token 0 = s.token 0 :=
  h.token.trans (Token.flattenEnd_of_lt (h.start_lt hk))

/-- A token that is not the end can be taken on both sides. -/
theorem taken (h : s.Unended n m t) (hk : s.kind 0 ≠ .finish) :
    ∃ i, m = i + 1 ∧ s.next.Unended n i t.next := by
  obtain ⟨v, rest, ht, -⟩ := h.exists_cons hk
  obtain ⟨u, hu, hs, hend⟩ := h.ahead
  obtain ⟨ahead, stop, finish⟩ := t
  obtain ⟨ahead', stop', finish'⟩ := s
  obtain rfl : ahead = v :: rest := ht
  obtain rfl : ahead' = v :: (rest ++ [u]) := hs
  cases m with
  | zero => exact absurd h.bound (Nat.not_succ_le_zero _)
  | succ i =>
    exact ⟨i, rfl, ⟨u, hu, rfl, hend⟩, rfl, h.finish, (List.forall_mem_cons.1 h.inside).2,
      Nat.le_of_succ_le_succ h.bound⟩

theorem next (h : s.Unended n m t) (hk : s.kind 0 ≠ .finish) : s.next.Unended n m t.next := by
  obtain ⟨i, rfl, h'⟩ := h.taken hk
  exact h'.mono (Nat.le_succ i)

theorem next_of_kind (h : s.Unended n m t) (hk : s.kind 0 = k) (hne : k ≠ .finish) :
    s.next.Unended n m t.next := h.next (hk ▸ hne)

end Cursor.Unended

/-! ## Readers -/

namespace Reader

/-- What comes of reading at two such cursors: the same, and the same error but for the place of the
end. -/
inductive Agree (n m : Nat) :
    Except SyntaxError (α × Cursor) → Except SyntaxError (α × Cursor) → Prop where
  | ok {a : α} {s t : Cursor} (h : s.Unended n m t) : Agree n m (.ok (a, s)) (.ok (a, t))
  | error (e : SyntaxError) : Agree n m (.error e) (.error (e.flattenEnd n))

/-- The reader reads the same at two such cursors, wherever they are. -/
def Alike (n : Nat) (x : Reader α) : Prop :=
  ∀ ⦃m : Nat⦄ ⦃s t : Cursor⦄, s.Unended n m t → Agree n m (x s) (x t)

/-- So does a reader of what is one level deeper, if a level is left. -/
def AlikeBelow (n : Nat) (below : Option (Reader α)) : Prop := ∀ x, below = some x → Alike n x

namespace Agree

variable {s t : Cursor} {x x' : Reader α} {f f' : α → Reader β} {expected : String}
  {hint : Option String}

theorem pure {a : α} (h : s.Unended n m t) :
    Agree n m ((pure a : Reader α) s) ((pure a : Reader α) t) := .ok h

theorem mono {m' : Nat} {r r' : Except SyntaxError (α × Cursor)} (h : Agree n m r r')
    (hm : m ≤ m') : Agree n m' r r' := by
  cases h with
  | ok h => exact .ok (h.mono hm)
  | error e => exact .error e

theorem bind_of (hx : Agree n m (x s) (x' t))
    (hf : ∀ a s' t', x s = .ok (a, s') → s'.Unended n m t' → Agree n m (f a s') (f' a t')) :
    Agree n m ((x >>= f) s) ((x' >>= f') t) := by
  generalize hs : x s = r at hx
  generalize ht : x' t = r' at hx
  cases hx with
  | ok h =>
    rw [bind_of_ok hs, bind_of_ok ht]
    exact hf _ _ _ hs h
  | error e =>
    rw [bind_of_error hs, bind_of_error ht]
    exact .error e

theorem bind (hx : Agree n m (x s) (x' t))
    (hf : ∀ a s' t', s'.Unended n m t' → Agree n m (f a s') (f' a t')) :
    Agree n m ((x >>= f) s) ((x' >>= f') t) :=
  hx.bind_of fun a s' t' _ h => hf a s' t' h

/-- An error inside the text is the same on both sides. -/
theorem same {e : SyntaxError} (h : e.span.start < n) :
    Agree n m (.error e : Except SyntaxError (α × Cursor)) (.error e) := by
  have he : Agree n m (.error e : Except SyntaxError (α × Cursor)) (.error (e.flattenEnd n)) :=
    .error e
  rwa [SyntaxError.flattenEnd_of_lt h] at he

theorem mismatch (h : s.Unended n m t) :
    Agree n m (.error (mismatch (s.token 0) expected hint) : Except SyntaxError (α × Cursor))
      (.error (mismatch (t.token 0) expected hint)) := by
  rw [h.token]
  exact .error _

theorem failHere (h : s.Unended n m t) :
    Agree n m ((failHere expected hint : Reader α) s)
      ((Reader.failHere expected hint : Reader α) t) :=
  mismatch h

theorem expectKind {k : TokenKind} (h : s.Unended n m t) (hk : k ≠ .finish) {f : Unit → Reader α}
    (hf : s.next.Unended n m t.next → Agree n m (f () s.next) (f () t.next)) :
    Agree n m ((expectKind k expected >>= f) s) ((Reader.expectKind k expected >>= f) t) := by
  rw [expectKind_bind, expectKind_bind, h.kind]
  split
  · exact hf (h.next_of_kind ‹_› hk)
  · exact mismatch h

theorem expect {p : Mark} (h : s.Unended n m t) {f : Unit → Reader α}
    (hf : s.next.Unended n m t.next → Agree n m (f () s.next) (f () t.next)) :
    Agree n m ((expect p >>= f) s) ((Reader.expect p >>= f) t) :=
  expectKind (k := .mark p) h (by simp) hf

theorem advance (h : s.Unended n m t) (hk : s.kind 0 ≠ .finish) {f : Token → Reader α}
    (hf : s.next.Unended n m t.next → Agree n m (f (s.token 0) s.next) (f (s.token 0) t.next)) :
    Agree n m ((advance >>= f) s) ((Reader.advance >>= f) t) := by
  rw [advance_bind, advance_bind, h.first hk]
  exact hf (h.next hk)

/-- Phrases that start at the same token and end here have the same span. -/
theorem spanned (h : s.Unended n m t) {u : Token} {f : Span → α} :
    Agree n m ((spanFrom u >>= fun span => (Pure.pure (f span) : Reader α)) s)
      ((spanFrom u >>= fun span => (Pure.pure (f span) : Reader α)) t) := by
  rw [spanFrom_bind, spanFrom_bind, h.lastStop]
  exact .ok h

theorem deeper {γ : Type} {g : Grammar} {below : Option γ} {body : γ → Reader α}
    (h : s.Unended n m t) (hb : ∀ r, below = some r → Agree n m (body r s) (body r t)) :
    Agree n m (deeper g below body s) (Reader.deeper g below body t) := by
  cases below with
  | none => exact failHere h
  | some r => exact hb r rfl

end Agree

section Sequences

variable {γ : Type} {step : Reader (Option α)} {item : Reader α} {s t : Cursor}

/-- A step that gives nothing and stays where it is on both sides, or takes a token. -/
def AlikeStep (n : Nat) (step : Reader (Option α)) : Prop :=
  ∀ ⦃m : Nat⦄ ⦃s t : Cursor⦄, s.Unended n m t →
    (step s = .ok (none, s) ∧ step t = .ok (none, t)) ∨ ∃ i, m = i + 1 ∧ Agree n i (step s) (step t)

theorem repeated_of_none (h : step s = .ok (none, s)) (i : Nat) :
    repeated step (i + 1) s = .ok ([], s) :=
  bind_of_ok h

/-- With the end ahead there is one more step to spare, which is of no use. -/
theorem agree_repeated (hstep : AlikeStep n step) (h : s.Unended n m t) :
    Agree n m (repeated step (m + 1) s) (repeated step m t) := by
  induction m generalizing s t with
  | zero =>
    rcases hstep h with ⟨hs, -⟩ | ⟨i, hi, -⟩
    · rw [repeated_of_none hs]
      exact .pure h
    · cases hi
  | succ m ih =>
    rcases hstep h with ⟨hs, ht⟩ | ⟨i, hi, hagree⟩
    · rw [repeated_of_none hs, repeated_of_none ht]
      exact .pure h
    · cases hi
      refine Agree.mono (hagree.bind fun o s' t' h' => ?_) (Nat.le_succ m)
      cases o with
      | none => exact .pure h'
      | some a => exact (ih h').bind fun as s'' t'' h'' => .pure h''

theorem alike_many (hstep : AlikeStep n step) : Alike n (many step) := by
  intro m s t h
  rw [many_eq, many_eq, h.length_eq]
  exact (agree_repeated hstep h.exact).mono h.bound

theorem alikeStep_linked {link? : TokenKind → Option γ} (hlink : link? .finish = none)
    (hitem : Alike n item) : AlikeStep n (linked link? item) := by
  intro m s t h
  rw [linked, peekKind_bind, peekKind_bind, h.kind]
  cases hl : link? (s.kind 0) with
  | none => exact .inl ⟨rfl, rfl⟩
  | some b =>
    have hk : s.kind 0 ≠ .finish := TokenKind.ne_finish hl hlink
    obtain ⟨i, rfl, h'⟩ := h.taken hk
    refine .inr ⟨i, rfl, ?_⟩
    show Agree n i ((advance >>= _) s) ((advance >>= _) t)
    rw [advance_bind, advance_bind]
    exact (hitem h').bind fun a s' t' h' => .pure h'

theorem alike_commaList (hitem : Alike n item) : Alike n (commaList item) := by
  intro m s t h
  refine (hitem h).bind fun a s₁ t₁ h₁ => ?_
  exact (alike_many (alikeStep_linked rfl hitem) h₁).bind fun links s₂ t₂ h₂ => .pure h₂

end Sequences

end Reader

namespace Operand

variable {g : Grammar} {s t : Cursor} {below : Option (Reader Operand)}
  {operand item : Reader Operand}
  {w : String}

/-! ## Literals -/

theorem alike_number : Alike n readNumber := by
  intro m s t h
  have hkind : (t.token 0).kind = (s.token 0).kind := h.kind 0
  rw [readNumber, advance_bind, advance_bind]
  cases hk : (s.token 0).kind with
  | number numeral =>
    have hne : s.kind 0 ≠ .finish := by simp [Cursor.kind, hk]
    rw [h.first hne, hk]
    dsimp only
    cases Literal.readNumber numeral with
    | ok l => exact .pure (h.next hne)
    | error e => exact .same (h.start_lt hne)
  | _ =>
    rw [hkind, hk]
    exact .mismatch h

theorem alike_magnitude (negative : Bool) : Alike n (readMagnitude negative) := by
  intro m s t h
  rw [readMagnitude, atNumber_bind, atNumber_bind, h.kind]
  split
  · refine (alike_number h).bind fun l s' t' h' => ?_
    cases l with
    | integer | double => exact .pure h'
    | _ => exact .failHere h'
  · exact .failHere h

theorem alike_ordinate : Alike n readOrdinate := by
  intro m s t h
  rw [readOrdinate_eq, readOrdinate_eq, h.kind]
  cases hs : sign? (s.kind 0) with
  | none => exact alike_magnitude false h
  | some negative =>
    have hk : s.kind 0 ≠ .finish := TokenKind.ne_finish hs rfl
    exact alike_magnitude negative (h.next hk)

theorem agree_envelope (h : s.Unended n m t) (hk : s.kind 0 = .identifier w) :
    Agree n m (readEnvelope s) (readEnvelope t) := by
  refine Agree.advance h (by simp [hk]) fun h₁ => .expect h₁ fun h₁ => ?_
  refine (alike_ordinate h₁).bind fun west s₂ t₂ h₂ => .expect h₂ fun h₂ => ?_
  refine (alike_ordinate h₂).bind fun south s₃ t₃ h₃ => .expect h₃ fun h₃ => ?_
  refine (alike_ordinate h₃).bind fun east s₄ t₄ h₄ => .expect h₄ fun h₄ => ?_
  refine (alike_ordinate h₄).bind fun north s₅ t₅ h₅ => .expect h₅ fun h₅ => ?_
  exact .spanned h₅

theorem agree_quotedInstant (h : s.Unended n m t) (hk : s.kind 0 = .identifier w) :
    Agree n m (readQuotedInstant s) (readQuotedInstant t) := by
  refine Agree.advance h (by simp [hk]) fun h₁ => .expect h₁ fun h₁ => ?_
  have hkind : (t.next.next.token 0).kind = (s.next.next.token 0).kind := h₁.kind 0
  rw [peek_bind, peek_bind]
  cases hs : (s.next.next.token 0).kind with
  | string content =>
    have hne : s.next.next.kind 0 ≠ .finish := by simp [Cursor.kind, hs]
    rw [h₁.first hne, hs]
    exact Agree.advance h₁ hne fun h₂ => .expect h₂ fun h₃ => .pure h₃
  | _ =>
    rw [hkind, hs]
    exact .mismatch h₁

theorem start_lt_quotedInstant {p : Token × String} {s' : Cursor} (h : s.Unended n m t)
    (hk : s.kind 0 = .identifier w) (hp : readQuotedInstant s = .ok (p, s')) :
    p.1.span.start < n := by
  obtain ⟨hopen, hstring, htoken, -, -⟩ := readQuotedInstant_eq_ok.1 hp
  rw [htoken]
  exact ((h.next_of_kind hk (by simp)).next_of_kind hopen (by simp)).start_lt (by simp [hstring])

theorem agree_date (h : s.Unended n m t) (hk : s.kind 0 = .identifier w) :
    Agree n m (readDate s) (readDate t) := by
  rw [readDate, peek_bind, peek_bind, h.first (by simp [hk])]
  refine (agree_quotedInstant h hk).bind_of fun p s' t' hp h' => ?_
  dsimp only
  cases Literal.readDate p.2 with
  | ok d => exact .spanned h'
  | error e => exact .same (start_lt_quotedInstant h hk hp)

theorem agree_timestamp (h : s.Unended n m t) (hk : s.kind 0 = .identifier w) :
    Agree n m (readTimestamp g s) (readTimestamp g t) := by
  rw [readTimestamp, peek_bind, peek_bind, h.first (by simp [hk])]
  refine (agree_quotedInstant h hk).bind_of fun p s' t' hp h' => ?_
  dsimp only
  cases Literal.readTimestamp (g.dialect.allows .naiveTimestamps) p.2 with
  | ok i => exact .spanned h'
  | error e => exact .same (start_lt_quotedInstant h hk hp)

/-! ## Geometries -/

theorem alikeStep_tag : AlikeStep n readTag := by
  intro m s t h
  rw [readTag, peekKind_bind, peekKind_bind, h.kind]
  cases hk : s.kind 0 with
  | identifier word =>
    obtain ⟨i, rfl, h'⟩ := h.taken (by simp [hk])
    by_cases hw : (isGeometryTag word && !sameWord word "EMPTY") = true
    · refine .inr ⟨i, rfl, ?_⟩
      simp only [hw, if_true, advance_bind]
      exact .pure h'
    · simp only [hw]
      exact .inl ⟨rfl, rfl⟩
  | _ => exact .inl ⟨rfl, rfl⟩

theorem alike_skipTags : Alike n skipTags := by
  intro m s t h
  rw [skipTags_eq]
  refine (alike_many alikeStep_tag h).bind fun _ s' t' h' => ?_
  rw [readEmpty, peekKind_bind, peekKind_bind, h'.kind]
  cases hk : s'.kind 0 with
  | identifier word =>
    show Agree n m ((if _ then _ else _ : Reader Bool) s') ((if _ then _ else _ : Reader Bool) t')
    split
    · exact Agree.advance h' (by simp [hk]) fun h'' => .pure h''
    · exact .pure h'
  | _ => exact .pure h'

/-- The tokens of a geometry are passed over up to its last parenthesis. -/
theorem agree_closing (limit depth : Nat) (fin : Token) {u : Token} {ts : List Token}
    (hu : u.kind = .finish) (ht : t.finish = u.flattenEnd n) (hstop : t.finish = s.finish)
    (hts : ∀ v ∈ ts, v.kind ≠ .finish ∧ v.span.start < n) (hm : ts.length ≤ m) :
    Agree n m
      ((closing limit fin depth (ts ++ [u])).map fun p =>
        ((), { s with ahead := p.2, lastStop := p.1 }))
      ((closing limit t.finish depth ts).map fun p =>
        ((), { t with ahead := p.2, lastStop := p.1 })) := by
  induction ts generalizing depth with
  | nil =>
    rw [List.nil_append, closing, closing, hu, ht]
    exact .error _
  | cons v ts ih =>
    obtain ⟨⟨hv, hlt⟩, hts⟩ := List.forall_mem_cons.1 hts
    have hm' := Nat.le_of_succ_le hm
    rw [List.cons_append, closing, closing]
    split
    · split
      · exact .same hlt
      · exact ih _ hts hm'
    · split
      · exact .ok ⟨⟨u, hu, rfl, ht⟩, rfl, hstop, hts, hm'⟩
      · exact ih _ hts hm'
    · rename_i hk
      exact absurd hk hv
    · exact ih _ hts hm'

theorem alike_passOver : Alike n (passOver g) := by
  intro m s t h
  refine Agree.expect h fun h₁ => ?_
  obtain ⟨u, hu, hs, ht⟩ := h₁.ahead
  have hc := agree_closing g.dialect.maxDepth 1 s.next.finish hu ht h₁.finish h₁.inside h₁.bound
  rw [← hs] at hc
  rw [get_bind, get_bind]
  generalize closing g.dialect.maxDepth s.next.finish 1 s.next.ahead = r at hc
  generalize closing g.dialect.maxDepth t.next.finish 1 t.next.ahead = r' at hc
  cases r with
  | ok p => cases r' with
    | ok p' => exact hc
    | error e' => cases hc
  | error e => cases r' with
    | ok p' => cases hc
    | error e' => exact hc

theorem agree_handOver {srid : Option Int64} {u : Token} (h : s.Unended n m t)
    (hu : u.span.start < n) : Agree n m (handOver g srid u s) (handOver g srid u t) := by
  rw [handOver, get_bind, get_bind, spanFrom_bind, spanFrom_bind, h.lastStop]
  cases byteSlice g.source.toList u.span.start s.lastStop with
  | none => exact .same hu
  | some cs =>
    dsimp only
    cases g.readGeometry (String.ofList cs) with
    | ok shape => exact .pure h
    | error e => exact .same hu

theorem agree_geometry {srid : Option Int64} (h : s.Unended n m t) (hk : s.kind 0 = .identifier w) :
    Agree n m (readGeometry g srid s) (readGeometry g srid t) := by
  have hlt := h.start_lt (by simp [hk])
  rw [readGeometry_eq]
  refine Agree.advance h (by simp [hk]) fun h₁ => (alike_skipTags h₁).bind fun empty s₂ t₂ h₂ => ?_
  cases empty with
  | true => exact agree_handOver h₂ hlt
  | false => exact (alike_passOver h₂).bind fun _ s₃ t₃ h₃ => agree_handOver h₃ hlt

theorem agree_withSrid (h : s.Unended n m t) (hk : s.kind 0 = .identifier w)
    (hs : atSrid s = true) : Agree n m (readWithSrid g s) (readWithSrid g t) := by
  obtain ⟨hequal, ⟨numeral, hnumber⟩, hsemicolon⟩ := atSrid_iff.1 hs
  have h₁ := h.next_of_kind hk (by simp)
  have h₂ := h₁.next_of_kind hequal (by simp)
  have h₃ := h₂.next_of_kind hnumber (by simp)
  have h₄ := h₃.next_of_kind hsemicolon (by simp)
  refine Agree.advance h (by simp [hk]) fun _ => .advance h₁ (by simp [hequal]) fun _ => ?_
  refine Agree.advance h₂ (by simp [hnumber]) fun _ => ?_
  have hkind : (s.next.next.token 0).kind = .number numeral := hnumber
  rw [hkind]
  dsimp only
  cases readInt64? numeral.toList with
  | none => exact .same (h₂.start_lt (by simp [hnumber]))
  | some srid =>
    refine Agree.advance h₃ (by simp [hsemicolon]) fun _ => ?_
    rw [get_bind, get_bind, h₄.kind, h₄.kind]
    show Agree n m ((if atGeometry s.next.next.next.next = true then _ else _ : Reader Operand) _)
      ((if atGeometry s.next.next.next.next = true then _ else _ : Reader Operand) _)
    split
    · rename_i hg
      obtain ⟨word, hword, -⟩ := atGeometry_iff.1 hg
      exact (agree_geometry h₄ hword).bind fun o s' t' h' => .spanned h'
    · exact .failHere h₄

/-! ## Calls and intervals -/

variable (hb : AlikeBelow n below)

include hb

theorem agree_call (h : s.Unended n m t) (hk : s.kind 0 = .identifier w) :
    Agree n m (readCall g below w s) (readCall g below w t) := by
  rw [readCall]
  split
  · exact .failHere h
  refine Agree.advance h (by simp [hk]) fun h₁ => .expect h₁ fun h₁ => .deeper h₁ fun x hx => ?_
  rw [eat_bind, eat_bind, h₁.kind]
  split
  · rename_i hp
    have h₂ := h₁.next_of_kind hp (by simp)
    exact .spanned h₂
  · refine (alike_commaList (hb x hx) h₁).bind fun args s₂ t₂ h₂ => ?_
    exact .expectKind h₂ (by simp) fun h₃ => .spanned h₃

omit hb in
theorem alike_bound (ho : Alike n operand) : Alike n (readBound g operand) := by
  intro m s t h
  cases hk : s.kind 0 with
  | string content =>
    rw [readBound_eq hk, readBound_eq ((h.kind 0).trans hk), h.first (by simp [hk])]
    cases g.stringBound? (s.token 0).span content with
    | none => exact ho h
    | some bound => exact Agree.advance h (by simp [hk]) fun h' => .pure h'
  | _ =>
    have hs : (s.token 0).kind = _ := hk
    have ht : (t.token 0).kind = _ := (h.kind 0).trans hk
    rw [readBound, peek_bind, peek_bind, hs, ht]
    exact ho h

theorem agree_interval (h : s.Unended n m t) (hk : s.kind 0 = .identifier w) :
    Agree n m (readInterval g below s) (readInterval g below t) := by
  refine Agree.advance h (by simp [hk]) fun h₁ => .expect h₁ fun h₁ => .deeper h₁ fun x hx => ?_
  refine (alike_bound (hb x hx) h₁).bind fun first s₂ t₂ h₂ => .expect h₂ fun h₂ => ?_
  refine (alike_bound (hb x hx) h₂).bind fun last s₃ t₃ h₃ => .expect h₃ fun h₃ => ?_
  exact .spanned h₃

/-! ## Operands -/

theorem agree_word (h : s.Unended n m t) (hk : s.kind 0 = .identifier w) :
    Agree n m (readWord g below w s) (readWord g below w t) := by
  have hsrid : atSrid t = atSrid s := by
    rw [atSrid, h.kind, h.kind, h.kind]
    rfl
  rw [readWord, get_bind, get_bind, hsrid, h.kind]
  split
  · rename_i hs
    exact agree_withSrid h hk (Bool.and_eq_true_iff.1 hs).2
  split
  · exact agree_geometry h hk
  split
  · exact Agree.advance h (by simp [hk]) fun h' => .pure h'
  split
  · exact agree_envelope h hk
  split
  · exact agree_date h hk
  split
  · exact agree_timestamp h hk
  split
  · exact agree_interval hb h hk
  · exact agree_call hb h hk

theorem agree_group {close : Mark} (h : s.Unended n m t) (hk : s.kind 0 ≠ .finish) :
    Agree n m (readGroup g below close s) (readGroup g below close t) := by
  refine Agree.advance h hk fun h₁ => .deeper h₁ fun x hx => ?_
  refine (hb x hx h₁).bind fun o s₂ t₂ h₂ => .expect h₂ fun h₂ => ?_
  exact .spanned h₂

theorem alike_primary : Alike n (readPrimary g below) := by
  intro m s t h
  have hkind : (t.token 0).kind = (s.token 0).kind := h.kind 0
  rw [readPrimary, peek_bind, peek_bind, hkind]
  cases hk : (s.token 0).kind with
  | finish => exact .failHere h
  | number numeral =>
    rw [h.first (by simp [Cursor.kind, hk])]
    exact (alike_number h).bind fun l s' t' h' => .pure h'
  | identifier word => exact agree_word hb h hk
  | string content | quotedIdentifier name =>
    have hne : s.kind 0 ≠ .finish := by simp [Cursor.kind, hk]
    rw [h.first hne]
    exact .advance h hne fun h' => .pure h'
  | keyword k =>
    cases k with
    | isTrue | isFalse =>
      have hne : s.kind 0 ≠ .finish := by simp [Cursor.kind, hk]
      rw [h.first hne]
      exact .advance h hne fun h' => .pure h'
    | _ => exact .failHere h
  | mark p =>
    have hne : s.kind 0 ≠ .finish := by simp [Cursor.kind, hk]
    cases p with
    | leftParen => exact agree_group hb h hne
    | leftBracket =>
      show Agree n m ((if _ then _ else _ : Reader Operand) s)
        ((if _ then _ else _ : Reader Operand) t)
      split
      · exact agree_group hb h hne
      · exact .failHere h
    | _ => exact .failHere h

omit hb in
theorem alike_chain {op? : TokenKind → Option ArithmeticOp} (hop : op? .finish = none)
    (hitem : Alike n item) : Alike n (readChain op? item) := by
  intro m s t h
  refine (hitem h).bind fun o s₁ t₁ h₁ => ?_
  exact (alike_many (alikeStep_linked hop hitem) h₁).bind fun links s₂ t₂ h₂ => .pure h₂

omit hb in
theorem alike_sum (hitem : Alike n item) : Alike n (readSum item) :=
  alike_chain rfl (alike_chain rfl hitem)

theorem alike_factorOver : Alike n (readFactorOver g below) := by
  intro m s t h
  rw [readFactorOver, peekKind_bind, peekKind_bind, h.kind]
  cases hs : sign? (s.kind 0) with
  | none =>
    refine alike_primary (fun x hx => ?_) h
    obtain ⟨r, hr, rfl⟩ := Option.map_eq_some_iff.1 hx
    exact alike_sum (hb r hr)
  | some negative =>
    have hk : s.kind 0 ≠ .finish := TokenKind.ne_finish hs rfl
    refine Agree.advance h hk fun h₁ => ?_
    rw [atNumber_bind, atNumber_bind, h₁.kind]
    split
    · exact (alike_number h₁).bind fun l s₂ t₂ h₂ => .spanned h₂
    · refine .deeper h₁ fun x hx => (hb x hx h₁).bind fun o s₂ t₂ h₂ => ?_
      cases negative <;> exact .pure h₂

omit hb in
theorem alike_factor (g : Grammar) (room : Nat) : Alike n (readFactor g room) := by
  induction room with
  | zero => exact alike_factorOver nofun
  | succ room ih =>
    refine alike_factorOver fun x hx => ?_
    cases hx
    exact ih

omit hb in
theorem alike_read (g : Grammar) (room : Nat) : Alike n (read g room) :=
  alike_sum (alike_factor g room)

omit hb in
/-- No operand starts at the end of a text. -/
theorem kind_of_read {room : Nat} {p : Operand × Cursor} (hf : s.finish.kind = .finish)
    (h : read g room s = .ok p) : s.kind 0 ≠ .finish := by
  obtain ⟨ts, hts, ho⟩ := (fits_read g room).sound hf h
  obtain ⟨u, us, rfl, -⟩ := Grammar.IsOperand.startsWith room ho
  rw [hts.kind_cons]
  exact hts.kinds u (List.mem_cons_self ..)

end Operand

namespace Condition

variable {g : Grammar} {s t : Cursor} {room : Nat} {belowOperand : Option (Reader Operand)}
  {below : Option (Reader Condition)} {item group predicate : Reader Condition} {start : Token}
  {value : Operand}

/-! ## Predicates -/

theorem alike_pattern : Alike n readPattern := by
  intro m s t h
  rw [readPattern, peekKind_bind, peekKind_bind, h.kind]
  cases hk : s.kind 0 with
  | string content => exact Agree.advance h (by simp [hk]) fun h' => .pure h'
  | _ => exact .failHere h

theorem alike_refuseRemoved : Alike n refuseRemoved := by
  intro m s t h
  rw [refuseRemoved, get_bind, get_bind, h.kind, h.kind]
  cases s.kind 0 with
  | keyword k =>
    cases k with
    | inList => exact .failHere h
    | _ => exact .pure h
  | identifier word =>
    show Agree n m ((if _ then _ else _ : Reader Unit) s) ((if _ then _ else _ : Reader Unit) t)
    split
    · exact .failHere h
    · exact .pure h
  | _ => exact .pure h

section Predicates

variable (hb : AlikeBelow n belowOperand)

include hb

theorem alike_choices : Alike n (readChoices g belowOperand) := by
  intro m s t h
  refine Agree.expect h fun h₁ => .deeper h₁ fun x hx => ?_
  refine (Reader.alike_commaList (hb x hx) h₁).bind fun choices s₂ t₂ h₂ => ?_
  exact .expectKind h₂ (by simp) fun h₃ => .pure h₃

theorem agree_negatable (h : s.Unended n m t) (negated : Bool) :
    Agree n m (readNegatable g (Operand.read g room) belowOperand start value negated s)
      (readNegatable g (Operand.read g room) belowOperand start value negated t) := by
  rw [readNegatable, peekKind_bind, peekKind_bind, h.kind]
  cases hk : s.kind 0 with
  | keyword k =>
    cases k with
    | between =>
      refine Agree.advance h (by simp [hk]) fun h₁ => ?_
      refine (Operand.alike_read g room h₁).bind fun low s₂ t₂ h₂ =>
        .expectKind h₂ (by simp) fun h₃ => ?_
      refine (Operand.alike_read g room h₃).bind fun high s₄ t₄ h₄ => ?_
      exact .spanned h₄
    | like =>
      refine Agree.advance h (by simp [hk]) fun h₁ => ?_
      refine (alike_pattern h₁).bind fun pattern s₂ t₂ h₂ => ?_
      exact .spanned h₂
    | inList =>
      refine Agree.advance h (by simp [hk]) fun h₁ => ?_
      refine (alike_choices hb h₁).bind fun choices s₂ t₂ h₂ => ?_
      exact .spanned h₂
    | _ => exact .failHere h
  | identifier word =>
    by_cases hw : (sameWord word "ILIKE" && g.dialect.allows .ilike) = true
    · simp only [hw, if_true]
      refine Agree.advance h (by simp [hk]) fun h₁ => ?_
      refine (alike_pattern h₁).bind fun pattern s₂ t₂ h₂ => ?_
      exact .spanned h₂
    · simp only [hw]
      exact .failHere h
  | _ => exact .failHere h

omit hb in
theorem agree_null (h : s.Unended n m t) (negated : Bool) :
    Agree n m (readNull start value negated s) (readNull start value negated t) :=
  Agree.expectKind h (by simp) fun h' => .spanned h'

theorem agree_rest (h : s.Unended n m t) :
    Agree n m (readRest g (Operand.read g room) belowOperand start value s)
      (readRest g (Operand.read g room) belowOperand start value t) := by
  have hnegatable :
      Agree n m (readNegatable g (Operand.read g room) belowOperand start value false s)
        (readNegatable g (Operand.read g room) belowOperand start value false t) :=
    agree_negatable hb h false
  have hkind := h.kind 0
  by_cases he : s.EndsPredicate
  · rcases endsPredicate_cases he with hk | hk | hk | hk | hk
    all_goals
      rw [readRest, peekKind_bind, peekKind_bind, hkind, hk]
      cases value with
      | call => exact .pure h
      | _ => exact hnegatable
  have hne : s.kind 0 ≠ .finish := fun hk => he (by rw [Cursor.EndsPredicate, hk]; rfl)
  cases hop : comparisonOp? (s.kind 0) with
  | some op =>
    rw [readRest_compare hop, readRest_compare ((congrArg comparisonOp? hkind).trans hop)]
    refine (Operand.alike_read g room (h.next hne)).bind fun right s₂ t₂ h₂ => ?_
    exact .spanned h₂
  | none =>
    cases hk : s.kind 0 with
    | keyword k =>
      cases k with
      | and | or => exact absurd (by rw [Cursor.EndsPredicate, hk]; rfl) he
      | not =>
        rw [readRest_not hk, readRest_not (hkind.trans hk)]
        exact agree_negatable hb (h.next hne) true
      | is =>
        have h₁ := h.next hne
        by_cases hn : s.next.kind 0 = .keyword .not
        · rw [readRest_isNot hk hn, readRest_isNot (hkind.trans hk) ((h₁.kind 0).trans hn)]
          exact agree_null (h₁.next_of_kind hn (by simp)) true
        · rw [readRest_is hk hn, readRest_is (hkind.trans hk) (h₁.kind 0 ▸ hn)]
          exact agree_null h₁ false
      | _ =>
        rw [readRest, peekKind_bind, peekKind_bind, hkind, hk]
        exact hnegatable
    | mark p =>
      cases p with
      | equal | notEqual | less | lessOrEqual | greater | greaterOrEqual =>
        rw [hk] at hop
        cases hop
      | rightParen | rightBracket => exact absurd (by rw [Cursor.EndsPredicate, hk]; rfl) he
      | bang =>
        rw [readRest, peekKind_bind, peekKind_bind, hkind, hk]
        exact .failHere h
      | _ =>
        rw [readRest, peekKind_bind, peekKind_bind, hkind, hk]
        exact hnegatable
    | finish => exact absurd hk hne
    | _ =>
      rw [readRest, peekKind_bind, peekKind_bind, hkind, hk]
      exact hnegatable

theorem alike_predicate : Alike n (readPredicate g (Operand.read g room) belowOperand) := by
  intro m s t h
  rw [readPredicate_eq]
  refine (alike_refuseRemoved h).bind fun _ s₁ t₁ h₁ => ?_
  rw [peek_bind, peek_bind]
  refine (Operand.alike_read g room h₁).bind_of fun o s₂ t₂ ho h₂ => ?_
  rw [h₁.first (Operand.kind_of_read (h₁.finish ▸ h₁.kind_finish) ho)]
  exact agree_rest hb h₂

end Predicates

/-! ## Groups and chains -/

theorem agree_group {close : Mark} (hb : AlikeBelow n below) (h : s.Unended n m t)
    (hk : s.kind 0 ≠ .finish) :
    Agree n m (readGroup g below close s) (readGroup g below close t) := by
  refine Agree.advance h hk fun h₁ => .deeper h₁ fun x hx => ?_
  exact (hb x hx h₁).bind fun c s₂ t₂ h₂ => .expect h₂ fun h₃ => .pure h₃

theorem atOperator_eq (h : s.Unended n m t) : atOperator t = atOperator s := by
  rw [atOperator, h.kind, h.kind]
  rfl

/-- The same one of two errors is kept. -/
theorem agree_orPredicate (hg : Agree n m (group s) (group t))
    (hp : Agree n m (predicate s) (predicate t)) :
    Agree n m (orPredicate group predicate s) (orPredicate group predicate t) := by
  rw [orPredicate, orPredicate]
  generalize group s = r, group t = r' at hg
  cases hg with
  | ok h =>
    dsimp only
    rw [atOperator_eq h]
    split
    · exact hp
    · exact .ok h
  | error e =>
    generalize predicate s = q, predicate t = q' at hp
    cases hp with
    | ok h => exact .ok h
    | error e' =>
      dsimp only
      rw [SyntaxError.furthest_flattenEnd]
      exact .error _

theorem alike_primary (hbo : AlikeBelow n belowOperand) (hb : AlikeBelow n below) :
    Alike n (readPrimary g (Operand.read g room) belowOperand below) := by
  intro m s t h
  have hpredicate : Agree n m (readPredicate g (Operand.read g room) belowOperand s)
      (readPredicate g (Operand.read g room) belowOperand t) := alike_predicate hbo h
  rw [readPrimary, groupClose, bind_assoc, peekKind_bind, peekKind_bind, h.kind]
  cases hk : s.kind 0 with
  | mark p =>
    have hne : s.kind 0 ≠ .finish := by simp [hk]
    cases p with
    | leftParen => exact agree_orPredicate (agree_group hb h hne) hpredicate
    | leftBracket =>
      show Agree n m (((if _ then _ else _ : Reader (Option Mark)) >>= _) s)
        (((if _ then _ else _ : Reader (Option Mark)) >>= _) t)
      split
      · exact agree_orPredicate (agree_group hb h hne) hpredicate
      · exact .failHere h
    | _ => exact hpredicate
  | _ => exact hpredicate

theorem alike_chain {k : Keyword} {join : Span → List Condition → Condition}
    (hitem : Alike n item) : Alike n (readChain k join item) := by
  intro m s t h
  rw [readChain_eq]
  refine (hitem h).bind fun c s₁ t₁ h₁ => ?_
  exact (alike_many (alikeStep_linked rfl hitem) h₁).bind fun links s₂ t₂ h₂ => .pure h₂

theorem alike_chains (hitem : Alike n item) : Alike n (readChains item) :=
  alike_chain (alike_chain hitem)

theorem alike_negationOver (hbo : AlikeBelow n belowOperand) (hb : AlikeBelow n below) :
    Alike n (readNegationOver g (Operand.read g room) belowOperand below) := by
  intro m s t h
  rw [readNegationOver_eq, readNegationOver_eq, h.kind]
  split
  · rename_i hk
    have hne : s.kind 0 ≠ .finish := by simp [hk]
    rw [h.first hne]
    refine .deeper (h.next hne) fun x hx => (hb x hx (h.next hne)).bind fun c s₂ t₂ h₂ => ?_
    exact .spanned h₂
  · refine alike_primary hbo (fun x hx => ?_) h
    obtain ⟨r, hr, rfl⟩ := Option.map_eq_some_iff.1 hx
    exact alike_chains (hb r hr)

theorem alike_negation (g : Grammar) (room : Nat) : Alike n (readNegation g room) := by
  induction room with
  | zero => exact alike_negationOver nofun nofun
  | succ room ih =>
    refine alike_negationOver (fun x hx => ?_) fun x hx => ?_
    · cases hx
      exact Operand.alike_read g room
    · cases hx
      exact ih

theorem alike_read (g : Grammar) (room : Nat) : Alike n (read g room) :=
  alike_chains (alike_negation g room)

end Condition

/-! ## Complete texts -/

namespace Grammar

variable {s t : Cursor}

theorem alike_expectFinish : Alike n expectFinish := by
  intro m s t h
  rw [expectFinish, peekKind_bind, peekKind_bind, h.kind]
  split
  · exact .failHere h
  · exact .pure h

theorem alike_whole {x : Reader α} (hx : Alike n x) :
    Alike n (do
      let a ← x
      expectFinish
      return a) := by
  intro m s t h
  exact (hx h).bind fun a s₁ t₁ h₁ => (alike_expectFinish h₁).bind fun _ s₂ t₂ h₂ => .pure h₂

end Grammar

/-- What is left of the tokens is of no account. -/
theorem Reader.Alike.run' {x : Reader α} {s t : Cursor} (hx : Alike n x) (h : s.Unended n m t) :
    x.run' t = (x.run' s).mapError (·.flattenEnd n) := by
  have hagree := hx h
  rw [run'_eq, run'_eq]
  generalize x s = r, x t = r' at hagree
  cases hagree with
  | ok h => rfl
  | error e => rfl

end FeatureFilter
