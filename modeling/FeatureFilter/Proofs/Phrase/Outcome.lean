import FeatureFilter.Phrase.Condition
import FeatureFilter.Proofs.Syntax.Taking
import FeatureFilter.Proofs.Text.Slice
import FeatureFilter.Proofs.Token.Piece

/-!
# What comes of reading a written text

`Cursor.At` says that a cursor stands in front of the pieces that a text ends in. `Outcome` is what
a reader does there, whether it succeeds or fails; `Grammar.Reads` is the outcome that a verdict
announces: the text fits and is read to the end of its pieces, or it is refused, because it is
nested too deep or for another reason, no earlier than it begins.
-/

namespace FeatureFilter

/-! ## Verdicts -/

/-- What comes of reading a text. -/
inductive Verdict where
  /-- It is read. -/
  | fits
  /-- It is refused because it is nested too deep. -/
  | deep
  /-- It is refused for another reason. -/
  | odd
  deriving DecidableEq

namespace Verdict

/-- One text after the other: the first obstacle counts. -/
def andThen : Verdict → Verdict → Verdict
  | fits, w => w
  | deep, _ => deep
  | odd, _ => odd

@[simp] theorem fits_andThen (w : Verdict) : fits.andThen w = w := rfl

@[simp] theorem andThen_fits (v : Verdict) : v.andThen fits = v := by cases v <;> rfl

theorem andThen_assoc (u v w : Verdict) : (u.andThen v).andThen w = u.andThen (v.andThen w) := by
  cases u <;> rfl

theorem andThen_of_ne {v : Verdict} (h : v ≠ fits) (w : Verdict) : v.andThen w = v := by
  cases v with
  | fits => exact absurd rfl h
  | deep => rfl
  | odd => rfl

theorem andThen_eq_fits {v w : Verdict} : v.andThen w = fits ↔ v = fits ∧ w = fits := by
  cases v <;> simp [andThen]

end Verdict

def SyntaxError.verdict (e : SyntaxError) : Verdict :=
  if e.expected = "shallower nesting" then .deep else .odd

theorem SyntaxError.verdict_ne_fits (e : SyntaxError) : e.verdict ≠ .fits := by
  unfold verdict
  split <;> exact Verdict.noConfusion

/-! ## Places in a text -/

def kindsOf : List Piece → List TokenKind
  | [] => []
  | .blank :: ps => kindsOf ps
  | .lexeme kind _ :: ps => kind :: kindsOf ps

@[simp] theorem kindsOf_append (a b : List Piece) : kindsOf (a ++ b) = kindsOf a ++ kindsOf b := by
  induction a with
  | nil => rfl
  | cons p a ih =>
    cases p with
    | blank => exact ih
    | lexeme kind w => exact congrArg (kind :: ·) ih

/-- The kind of the `n`-th token of pieces that end a text. -/
def kindAt (ps : List Piece) (n : Nat) : TokenKind := ((kindsOf ps)[n]?).getD .finish

theorem length_tokensAt (p : Position) (ps : List Piece) :
    (tokensAt p ps).length = (kindsOf ps).length + 1 := by
  induction ps generalizing p with
  | nil => rfl
  | cons a ps ih =>
    cases a with
    | blank => exact ih _
    | lexeme kind w => rw [tokensAt, kindsOf, List.length_cons, List.length_cons, ih]

theorem kind_tokensAt (p : Position) (ps : List Piece) (n : Nat) (t : Token)
    (ht : t.kind = .finish) : (((tokensAt p ps)[n]?).getD t).kind = kindAt ps n := by
  induction ps generalizing p n with
  | nil =>
    cases n with
    | zero => rfl
    | succ n => exact ht
  | cons a ps ih =>
    cases a with
    | blank => exact ih _ n
    | lexeme kind w =>
      cases n with
      | zero => rfl
      | succ n => exact ih _ n

def trimBlanks : List Piece → List Piece
  | .blank :: ps => trimBlanks ps
  | ps => ps

namespace Grammar

/-- Where the pieces stand that the text ends in. -/
def place (g : Grammar) (ps : List Piece) : Position :=
  Position.start.after (g.source.toList.take (g.source.toList.length - (charsOf ps).length))

theorem place_append (g : Grammar) {a ps : List Piece} (h : charsOf (a ++ ps) <:+ g.source.toList) :
    g.place ps = (g.place (a ++ ps)).after (charsOf a) := by
  obtain ⟨pre, hpre⟩ := h
  rw [charsOf_append] at hpre
  have h1 : g.source.toList.length - (charsOf ps).length = (pre ++ charsOf a).length := by
    rw [← hpre]
    simp only [List.length_append]
    omega
  have h2 : g.source.toList.length - (charsOf (a ++ ps)).length = pre.length := by
    rw [← hpre, charsOf_append]
    simp only [List.length_append]
    omega
  rw [place, place, h1, h2, ← Position.after_append, ← hpre, List.take_left, ← List.append_assoc,
    List.take_left]

/-- The byte at which the next token of the pieces starts. -/
def offset (g : Grammar) (ps : List Piece) : Nat := (g.place (trimBlanks ps)).offset

theorem place_le_offset (g : Grammar) {ps : List Piece} (h : charsOf ps <:+ g.source.toList) :
    (g.place ps).offset ≤ g.offset ps := by
  induction ps with
  | nil => exact Nat.le_refl _
  | cons p ps ih =>
    cases p with
    | lexeme kind w => exact Nat.le_refl _
    | blank =>
      have hp := g.place_append (a := [.blank]) h
      have := ih ((List.suffix_append [' '] (charsOf ps)).trans h)
      rw [hp, Position.offset_after] at this
      rw [List.singleton_append] at this
      show _ ≤ g.offset ps
      omega

/-- What follows a token starts where the token ends or behind it. -/
theorem offset_lexeme (g : Grammar) {kind : TokenKind} {w : List Char} {ps : List Piece}
    (h : charsOf (.lexeme kind w :: ps) <:+ g.source.toList) :
    g.offset (.lexeme kind w :: ps) + Wkt.byteLength w ≤ g.offset ps := by
  have hp := g.place_append (a := [.lexeme kind w]) h
  have := g.place_le_offset ((List.suffix_append w (charsOf ps)).trans h)
  rw [hp, Position.offset_after] at this
  simpa [charsOf_cons, Piece.chars, offset, trimBlanks] using this

theorem offset_append_le (g : Grammar) {a ps : List Piece}
    (h : charsOf (a ++ ps) <:+ g.source.toList) : g.offset (a ++ ps) ≤ g.offset ps := by
  induction a with
  | nil => exact Nat.le_refl _
  | cons p a ih =>
    have := ih ((List.suffix_append p.chars (charsOf (a ++ ps))).trans h)
    cases p with
    | blank => exact this
    | lexeme kind w =>
      have hle : g.offset (.lexeme kind w :: (a ++ ps)) + Wkt.byteLength w ≤ g.offset (a ++ ps) :=
        g.offset_lexeme h
      rw [List.cons_append]
      omega

end Grammar

/-- The cursor stands in front of the pieces that the text ends in, at byte `lo` or behind it. -/
structure Cursor.At (g : Grammar) (lo : Nat) (ps : List Piece) (s : Cursor) : Prop where
  ahead : s.ahead = tokensAt (g.place ps) ps
  suffix : charsOf ps <:+ g.source.toList
  finish : s.finish.kind = .finish
  lo_le : lo ≤ g.offset ps

namespace Cursor.At

variable {g : Grammar} {lo : Nat} {ps : List Piece} {s : Cursor} {kind : TokenKind} {w : List Char}

theorem suffix_append {a : List Piece} (h : s.At g lo (a ++ ps)) : charsOf ps <:+ g.source.toList :=
  (List.suffix_append (charsOf a) (charsOf ps)).trans (by simpa using h.suffix)

theorem lo_le_append {a : List Piece} (h : s.At g lo (a ++ ps)) : lo ≤ g.offset ps :=
  h.lo_le.trans (g.offset_append_le h.suffix)

/-- Blanks make no difference to what is read. -/
theorem blank (h : s.At g lo (.blank :: ps)) : s.At g lo ps := by
  have hp := g.place_append (a := [.blank]) h.suffix
  refine ⟨?_, suffix_append (a := [.blank]) h, h.finish, lo_le_append (a := [.blank]) h⟩
  rw [h.ahead, tokensAt, hp]
  rfl

theorem skip {a : List Piece} (ha : kindsOf a = []) (h : s.At g lo (a ++ ps)) : s.At g lo ps := by
  induction a with
  | nil => exact h
  | cons p a ih =>
    cases p with
    | blank => exact ih ha h.blank
    | lexeme kind w => cases ha

/-- What stands here stands behind an earlier byte, too. -/
theorem mono {lo' : Nat} (h : s.At g lo ps) (hlo : lo' ≤ lo) : s.At g lo' ps :=
  ⟨h.ahead, h.suffix, h.finish, hlo.trans h.lo_le⟩

theorem kind_eq (h : s.At g lo ps) (n : Nat) : s.kind n = kindAt ps n := by
  rw [Cursor.kind, Cursor.token, h.ahead]
  exact kind_tokensAt _ _ _ _ h.finish

theorem length_ahead (h : s.At g lo ps) : s.ahead.length = (kindsOf ps).length + 1 := by
  rw [h.ahead, length_tokensAt]

theorem ahead_cons (h : s.At g lo (.lexeme kind w :: ps)) :
    s.ahead = ⟨kind, String.ofList w, .between (g.place (.lexeme kind w :: ps)) (g.place ps)⟩ ::
      tokensAt (g.place ps) ps := by
  have hp := g.place_append (a := [.lexeme kind w]) h.suffix
  rw [h.ahead, tokensAt, hp, List.singleton_append]
  simp [charsOf_cons, Piece.chars]

/-- The next token is taken. -/
theorem advance (h : s.At g lo (.lexeme kind w :: ps)) :
    ∃ t s', Reader.advance s = .ok (t, s') ∧ t.kind = kind ∧
      t.span.start = g.offset (.lexeme kind w :: ps) ∧ s'.lastStop = (g.place ps).offset ∧
      s'.At g lo ps := by
  refine ⟨⟨kind, String.ofList w, .between (g.place (.lexeme kind w :: ps)) (g.place ps)⟩,
    { s with ahead := tokensAt (g.place ps) ps, lastStop := (g.place ps).offset }, ?_, rfl,
    rfl, rfl, ⟨rfl, ?_, h.finish, ?_⟩⟩
  · simp only [Reader.advance, h.ahead_cons, Span.between]
  · exact h.suffix_append (a := [.lexeme kind w])
  · exact h.lo_le_append (a := [.lexeme kind w])

/-- A single token is taken, and so are the blanks around it. -/
theorem advance_of_kindsOf {a : List Piece} (ha : kindsOf a = [kind]) (h : s.At g lo (a ++ ps)) :
    ∃ t s', Reader.advance s = .ok (t, s') ∧ s'.At g lo ps := by
  induction a with
  | nil => cases ha
  | cons p a ih =>
    cases p with
    | blank => exact ih ha h.blank
    | lexeme kind w =>
      obtain ⟨t, s', hadv, -, -, -, h'⟩ :=
        advance (show s.At g lo (.lexeme kind w :: (a ++ ps)) from h)
      exact ⟨t, s', hadv, h'.skip (List.cons.inj ha).2⟩

theorem start_token (h : s.At g lo ps) : (s.token 0).span.start = g.offset ps := by
  induction ps with
  | nil =>
    rw [Cursor.token, h.ahead]
    rfl
  | cons a ps ih =>
    cases a with
    | blank => exact ih h.blank
    | lexeme kind w =>
      rw [Cursor.token, h.ahead_cons]
      rfl

theorem lo_le_token (h : s.At g lo ps) : lo ≤ (s.token 0).span.start := by
  rw [h.start_token]
  exact h.lo_le

end Cursor.At

/-! ## Outcomes -/

/-- What a reader does: when it succeeds `good` holds, and when it fails `bad` holds of the error.
-/
def Outcome (good : α → Cursor → Prop) (bad : SyntaxError → Prop) :
    Except SyntaxError (α × Cursor) → Prop
  | .ok (a, s) => good a s
  | .error e => bad e

namespace Outcome

variable {good : α → Cursor → Prop} {good' : β → Cursor → Prop} {bad bad' : SyntaxError → Prop}
  {x : Reader α} {f : α → Reader β} {s s' : Cursor} {a : α}

theorem mono {good' : α → Cursor → Prop} {r : Except SyntaxError (α × Cursor)}
    (h : Outcome good bad r) (hg : ∀ a s, good a s → good' a s) (hb : ∀ e, bad e → bad' e) :
    Outcome good' bad' r := by
  match r with
  | .ok (a, s) => exact hg a s h
  | .error e => exact hb e h

theorem bind (h : Outcome good bad' (x s)) (hf : ∀ a s', good a s' → Outcome good' bad (f a s'))
    (hb : ∀ e, bad' e → bad e) : Outcome good' bad ((x >>= f) s) := by
  show Outcome good' bad (x s >>= fun p => f p.1 p.2)
  match hx : x s with
  | .ok (a, s') =>
    rw [hx] at h
    exact hf a s' h
  | .error e =>
    rw [hx] at h
    exact hb e h

theorem step (h : x s = .ok (a, s')) (hf : Outcome good' bad (f a s')) :
    Outcome good' bad ((x >>= f) s) := by
  show Outcome good' bad (x s >>= fun p => f p.1 p.2)
  rw [h]
  exact hf

end Outcome

/-! ## Reading as announced -/

/-- The outcome that a verdict announces: when the text fits, it is read to the pieces `qs` and
`good` holds of the result; otherwise the error tells of the obstacle, and is not before byte `lo`.
-/
def Grammar.Reads (g : Grammar) (lo : Nat) (v : Verdict) (qs : List Piece) (good : α → Prop) :
    Except SyntaxError (α × Cursor) → Prop :=
  Outcome (fun a s => v = .fits ∧ good a ∧ s.At g lo qs)
    (fun e => v ≠ .fits ∧ e.verdict = v ∧ lo ≤ e.span.start)

namespace Grammar.Reads

variable {g : Grammar} {lo : Nat} {v w : Verdict} {ps qs rs : List Piece} {good : α → Prop}
  {good' : β → Prop} {x : Reader α} {f : α → Reader β} {s s' : Cursor} {a : α}

theorem pure (ha : good a) (h : s.At g lo qs) : g.Reads lo .fits qs good ((pure a : Reader α) s) :=
  ⟨rfl, ha, h⟩

theorem mono {good' : α → Prop} {r : Except SyntaxError (α × Cursor)} (h : g.Reads lo v qs good r)
    (hg : ∀ a, good a → good' a) : g.Reads lo v qs good' r :=
  Outcome.mono h (fun a _ h => ⟨h.1, hg a h.2.1, h.2.2⟩) fun _ h => h

theorem bind (h : g.Reads lo v qs good (x s))
    (hf : ∀ a s', good a → s'.At g lo qs → g.Reads lo w rs good' (f a s')) :
    g.Reads lo (v.andThen w) rs good' ((x >>= f) s) := by
  refine Outcome.bind h (fun a s' h => ?_) fun e h => ?_
  · rw [h.1]
    exact hf a s' h.2.1 h.2.2
  · rw [Verdict.andThen_of_ne h.1]
    exact h

/-- When the text fits nothing is known of errors, and when it does not nothing of what follows. -/
theorem raise {lo' : Nat} {r : Except SyntaxError (α × Cursor)} (h : g.Reads lo v qs good r)
    (hne : v ≠ .fits → lo' ≤ lo) (hfits : v = .fits → lo' ≤ g.offset qs) :
    g.Reads lo' v qs good r :=
  Outcome.mono h
    (fun _ _ h => ⟨h.1, h.2.1, h.2.2.ahead, h.2.2.suffix, h.2.2.finish, hfits h.1⟩)
    fun _ h => ⟨h.1, h.2.1, (hne h.1).trans h.2.2⟩

/-- The last step always succeeds. -/
theorem map (h : g.Reads lo v qs good (x s))
    (hf : ∀ a s', good a → s'.At g lo qs → g.Reads lo .fits rs good' (f a s')) :
    g.Reads lo v rs good' ((x >>= f) s) := by
  have := h.bind hf
  rwa [Verdict.andThen_fits] at this

theorem step (h : x s = .ok (a, s')) (hf : g.Reads lo v qs good' (f a s')) :
    g.Reads lo v qs good' ((x >>= f) s) := Outcome.step h hf

theorem failHere {expected : String} {hint : Option String} (h : s.At g lo ps)
    (he : expected ≠ "shallower nesting") :
    g.Reads lo .odd qs good (Reader.failHere expected hint s) := by
  refine ⟨Verdict.noConfusion, ?_, h.lo_le_token⟩
  simp [SyntaxError.verdict, Reader.mismatch, he]

/-! ### Looking and taking -/

variable {kind : TokenKind} {lexeme : List Char}

theorem get {f : Cursor → Reader β} (hf : g.Reads lo v qs good' (f s s)) :
    g.Reads lo v qs good' (((MonadState.get : Reader Cursor) >>= f) s) := hf

theorem peek {f : Token → Reader β} (h : s.At g lo ps)
    (hf : ∀ t, t.kind = kindAt ps 0 → g.Reads lo v qs good' (f t s)) :
    g.Reads lo v qs good' ((Reader.peek >>= f) s) := hf _ (h.kind_eq 0)

theorem peekKind {f : TokenKind → Reader β} (h : s.At g lo ps)
    (hf : g.Reads lo v qs good' (f (kindAt ps 0) s)) :
    g.Reads lo v qs good' ((Reader.peekKind >>= f) s) := by
  rw [← h.kind_eq] at hf
  exact hf

theorem advance {f : Token → Reader β} (h : s.At g lo (.lexeme kind lexeme :: ps))
    (hf : ∀ t s', t.kind = kind → s'.At g lo ps → g.Reads lo v qs good' (f t s')) :
    g.Reads lo v qs good' ((Reader.advance >>= f) s) := by
  obtain ⟨t, s', hadv, ht, -, -, h'⟩ := h.advance
  exact step hadv (hf t s' ht h')

theorem eat {f : Bool → Reader β} {m : Mark} (h : s.At g lo (.mark m :: ps))
    (hf : ∀ s', s'.At g lo ps → g.Reads lo v qs good' (f true s')) :
    g.Reads lo v qs good' ((Reader.eat m >>= f) s) := by
  rw [Reader.eat, bind_assoc]
  refine peekKind h ?_
  rw [if_pos (show kindAt (.mark m :: ps) 0 = .mark m from rfl), bind_assoc]
  exact advance h fun _ s' _ h' => hf s' h'

theorem eat_other {f : Bool → Reader β} {m : Mark} (h : s.At g lo ps)
    (hk : kindAt ps 0 ≠ .mark m) (hf : g.Reads lo v qs good' (f false s)) :
    g.Reads lo v qs good' ((Reader.eat m >>= f) s) := by
  rw [Reader.eat, bind_assoc]
  refine peekKind h ?_
  rw [if_neg hk]
  exact hf

theorem expectKind {f : Unit → Reader β} {expected : String}
    (h : s.At g lo (.lexeme kind lexeme :: ps))
    (hf : ∀ s', s'.At g lo ps → g.Reads lo v qs good' (f () s')) :
    g.Reads lo v qs good' ((Reader.expectKind kind expected >>= f) s) := by
  rw [Reader.expectKind, bind_assoc]
  refine peekKind h ?_
  rw [if_pos (show kindAt (.lexeme kind lexeme :: ps) 0 = kind from rfl), bind_assoc]
  exact advance h fun _ s' _ h' => hf s' h'

theorem expect {f : Unit → Reader β} {m : Mark} (h : s.At g lo (.mark m :: ps))
    (hf : ∀ s', s'.At g lo ps → g.Reads lo v qs good' (f () s')) :
    g.Reads lo v qs good' ((Reader.expect m >>= f) s) := expectKind h hf

theorem spanFrom {f : Span → Reader β} (t : Token)
    (hf : ∀ span, span.start = t.span.start → g.Reads lo v qs good' (f span s)) :
    g.Reads lo v qs good' ((Reader.spanFrom t >>= f) s) := hf _ rfl

theorem deeper_none {γ : Type} {body : γ → Reader β} (h : s.At g lo ps) :
    g.Reads lo .deep qs good' (Reader.deeper g none body s) :=
  ⟨Verdict.noConfusion, rfl, h.lo_le_token⟩

theorem deeper_some {γ : Type} {r : γ} {body : γ → Reader β}
    (hf : g.Reads lo v qs good' (body r s)) :
    g.Reads lo v qs good' (Reader.deeper g (some r) body s) := hf

end Grammar.Reads

/-! ## Separated items -/

def Verdict.all (verdict : ε → Verdict) : List ε → Verdict
  | [] => .fits
  | x :: xs => (verdict x).andThen (Verdict.all verdict xs)

theorem Verdict.all_append (verdict : ε → Verdict) (xs ys : List ε) :
    Verdict.all verdict (xs ++ ys) = (Verdict.all verdict xs).andThen (Verdict.all verdict ys) := by
  induction xs with
  | nil => rfl
  | cons x xs ih => rw [List.cons_append, Verdict.all, ih, Verdict.all, Verdict.andThen_assoc]

def separatedPieces (sep pieces : ε → List Piece) (xs : List ε) : List Piece :=
  xs.flatMap fun x => sep x ++ pieces x

theorem joinedPieces_map (sep : List Piece) (pieces : ε → List Piece) (x : ε) (xs : List ε) :
    joinedPieces sep ((x :: xs).map pieces) =
      pieces x ++ separatedPieces (fun _ => sep) pieces xs := by
  rw [List.map_cons, joinedPieces_cons, separatedPieces, List.flatMap_map]

namespace Grammar

variable {g : Grammar} {lo : Nat} {ε : Type} {verdict : ε → Verdict} {pieces sep : ε → List Piece}
  {qs : List Piece} {kind : ε → TokenKind} {good : α → ε → Prop} {item : Reader α}
  {link? : TokenKind → Option β} {link : ε → β} {ends : List Piece → Prop}

/-- The item is read as announced in front of whatever ends an item. -/
def ReadsItem (g : Grammar) (verdict : ε → Verdict) (pieces : ε → List Piece)
    (good : α → ε → Prop) (ends : List Piece → Prop) (item : Reader α) (x : ε) : Prop :=
  ∀ lo s qs, ends qs → s.At g lo (pieces x ++ qs) → g.Reads lo (verdict x) qs (good · x) (item s)

theorem kindAt_separator {sep : List Piece} {kind : TokenKind} (hsep : kindsOf sep = [kind])
    (ps : List Piece) : kindAt (sep ++ ps) 0 = kind := by
  rw [kindAt, kindsOf_append, hsep]
  rfl

theorem separatedPieces_cons (x : ε) (xs : List ε) (qs : List Piece) :
    separatedPieces sep pieces (x :: xs) ++ qs =
      sep x ++ (pieces x ++ (separatedPieces sep pieces xs ++ qs)) := by
  simp [separatedPieces]

theorem ends_separated (xs : List ε) (hends : ∀ x ∈ xs, ∀ ps, ends (sep x ++ ps)) (hq : ends qs) :
    ends (separatedPieces sep pieces xs ++ qs) := by
  cases xs with
  | nil => exact hq
  | cons x xs =>
    rw [separatedPieces_cons]
    exact hends x (List.mem_cons_self ..) _

theorem length_separated (hsep : ∀ x, kindsOf (sep x) = [kind x]) (xs : List ε) :
    xs.length ≤ (kindsOf (separatedPieces sep pieces xs ++ qs)).length := by
  induction xs with
  | nil => exact Nat.zero_le _
  | cons x xs ih =>
    rw [separatedPieces_cons]
    simp only [kindsOf_append, hsep, List.length_append, List.length_cons, List.length_nil] at ih ⊢
    omega

theorem reads_repeated (hsep : ∀ x, kindsOf (sep x) = [kind x]) (xs : List ε)
    (hlink : ∀ x ∈ xs, link? (kind x) = some (link x)) (hends : ∀ x ∈ xs, ∀ ps, ends (sep x ++ ps))
    (hq : ends qs) (hstop : link? (kindAt qs 0) = none)
    (hx : ∀ x ∈ xs, ReadsItem g verdict pieces good ends item x) (n : Nat) (hn : xs.length ≤ n)
    {s : Cursor} (h : s.At g lo (separatedPieces sep pieces xs ++ qs)) :
    g.Reads lo (Verdict.all verdict xs) qs
      (fun ys => List.Forall₂ (fun y x => y.1 = link x ∧ good y.2 x) ys xs)
      (Reader.repeated (Reader.linked link? item) n s) := by
  induction xs generalizing n s with
  | nil =>
    cases n with
    | zero => exact .pure .nil h
    | succ n =>
      rw [Reader.repeated, Reader.linked, bind_assoc]
      refine .peekKind h ?_
      rw [show kindAt (separatedPieces sep pieces [] ++ qs) 0 = kindAt qs 0 from rfl, hstop]
      exact .pure .nil h
  | cons x xs ih =>
    obtain ⟨n, rfl⟩ : ∃ m, n = m + 1 := ⟨n - 1, by simp at hn; omega⟩
    have hmem {z : ε} (hz : z ∈ xs) : z ∈ x :: xs := List.mem_cons_of_mem _ hz
    have hnext : ends (separatedPieces sep pieces xs ++ qs) :=
      ends_separated xs (fun z hz => hends z (hmem hz)) hq
    rw [separatedPieces_cons] at h
    obtain ⟨t, s', hadv, h'⟩ := h.advance_of_kindsOf (hsep x)
    rw [Reader.repeated, Reader.linked, bind_assoc]
    refine .peekKind h ?_
    rw [kindAt_separator (hsep x), hlink x (List.mem_cons_self ..)]
    simp only [bind_assoc, pure_bind]
    refine .step hadv ?_
    refine (hx x (List.mem_cons_self ..) lo s' _ hnext h').bind fun y s'' hy h'' => ?_
    refine (ih (fun z hz => hlink z (hmem hz)) (fun z hz => hends z (hmem hz))
      (fun z hz => hx z (hmem hz)) n (by simpa using hn) h'').map fun ys s₃ hys h₃ => ?_
    exact .pure (.cons ⟨rfl, hy⟩ hys) h₃

variable (sep kind good link? link) in
theorem reads_many (hsep : ∀ x, kindsOf (sep x) = [kind x]) (xs : List ε)
    (hlink : ∀ x ∈ xs, link? (kind x) = some (link x)) (hends : ∀ x ∈ xs, ∀ ps, ends (sep x ++ ps))
    (hq : ends qs) (hstop : link? (kindAt qs 0) = none)
    (hx : ∀ x ∈ xs, ReadsItem g verdict pieces good ends item x)
    {s : Cursor} (h : s.At g lo (separatedPieces sep pieces xs ++ qs)) :
    g.Reads lo (Verdict.all verdict xs) qs
      (fun ys => List.Forall₂ (fun y x => y.1 = link x ∧ good y.2 x) ys xs)
      (Reader.many (Reader.linked link? item) s) := by
  refine .get (reads_repeated hsep xs hlink hends hq hstop hx _ ?_ h)
  rw [h.length_ahead]
  exact (length_separated hsep xs).trans (Nat.le_succ _)

theorem reads_none (hstop : link? (kindAt qs 0) = none) {s : Cursor} (h : s.At g lo qs) :
    g.Reads lo .fits qs (· = []) (Reader.many (Reader.linked link? item) s) := by
  refine .get ?_
  cases s.ahead.length with
  | zero => exact .pure rfl h
  | succ n =>
    rw [Reader.repeated, Reader.linked, bind_assoc]
    refine .peekKind h ?_
    rw [hstop]
    exact .pure rfl h

end Grammar

end FeatureFilter
