import FeatureFilter.Proofs.Phrase.Outcome
import FeatureFilter.Proofs.Syntax.Conditions
import FeatureFilter.Proofs.Token.Places

/-!
# Where phrases stand

The spans of phrases and of errors are parts of the text that the tokens were read from: they start
at the place that they name and end between two characters (`Span.Placed`). That, and any other
property of the spans of the tokens that is kept when one of them goes on to the end of another
(`Span.Joins`), holds of all that is read. A reader starts at a cursor that still has the end of the
text ahead. It takes no token before it has looked at its kind, so that the end stays ahead and
nothing is said about what stands behind it (`Stays`).
-/

namespace FeatureFilter

open Reader

variable {α β : Type} {source : List Char}

/-! ## Parts of a text -/

/-- The offset falls between two characters of the text, or at one of its ends. -/
def IsBoundary (source : List Char) (n : Nat) : Prop :=
  ∃ before behind, source = before ++ behind ∧ n = Wkt.byteLength before

theorem IsBoundary.le {n : Nat} (h : IsBoundary source n) : n ≤ Wkt.byteLength source := by
  obtain ⟨before, behind, rfl, rfl⟩ := h
  rw [byteLength_append]
  exact Nat.le_add_right _ _

/-- The span is a part of the text, and names the line and column where it starts. -/
structure Span.Placed (source : List Char) (s : Span) : Prop where
  start : ∃ before behind, source = before ++ behind ∧
    (⟨s.start, s.line, s.column⟩ : Position) = .behind before
  stop : IsBoundary source s.stop
  start_le_stop : s.start ≤ s.stop

namespace Span.Placed

variable {s a b : Span} {n : Nat}

theorem extend (h : s.Placed source) (hn : IsBoundary source n) :
    Span.Placed source { s with stop := max n s.stop } where
  start := h.start
  stop := by
    show IsBoundary source (max n s.stop)
    rcases Nat.le_total n s.stop with hle | hle
    · rw [Nat.max_eq_right hle]
      exact h.stop
    · rw [Nat.max_eq_left hle]
      exact hn
  start_le_stop := Nat.le_trans h.start_le_stop (Nat.le_max_right ..)

theorem through (ha : a.Placed source) (hb : b.Placed source) : (a.through b).Placed source :=
  ha.extend hb.stop

/-- A single point of a text. -/
theorem between (before behind : List Char) :
    (Span.between (.behind before) (.behind before)).Placed (before ++ behind) :=
  ⟨⟨before, behind, rfl, rfl⟩, ⟨before, behind, rfl, rfl⟩, Nat.le_refl _⟩

end Span.Placed

theorem isBoundary_iff {text : String} {n : Nat} :
    IsBoundary text.toList n ↔ String.Pos.Raw.IsValid text ⟨n⟩ := by
  rw [String.Pos.Raw.isValid_iff_exists_append]
  constructor
  · rintro ⟨before, behind, htext, rfl⟩
    refine ⟨String.ofList before, String.ofList behind, ?_, ?_⟩
    · rw [← String.toList_inj, htext]
      simp
    · rw [String.rawEndPos, ← byteLength_toList, String.toList_ofList]
  · rintro ⟨before, behind, rfl, hn⟩
    refine ⟨before.toList, behind.toList, String.toList_append, ?_⟩
    rw [byteLength_toList]
    exact congrArg String.Pos.Raw.byteIdx hn

/-- Of two cuts of a text the earlier one stands in front of the later one. -/
theorem exists_between {a b c d : List Char} (h : a ++ b = c ++ d)
    (hle : Wkt.byteLength a ≤ Wkt.byteLength c) : ∃ m, c = a ++ m ∧ b = m ++ d := by
  rcases List.append_eq_append_iff.1 h with h | ⟨m, rfl, rfl⟩
  · exact h
  · rw [byteLength_append] at hle
    cases m with
    | nil => exact ⟨[], by simp⟩
    | cons x m =>
      have := byteLength_pos (List.cons_ne_nil x m)
      omega

/-- Two cuts of a text have a slice between them. -/
theorem isSome_byteSlice {a b : Nat} (ha : IsBoundary source a) (hle : a ≤ b) :
    (byteSlice source a b).isSome ↔ IsBoundary source b := by
  rw [Option.isSome_iff_exists]
  constructor
  · rintro ⟨slice, h⟩
    obtain ⟨before, behind, rfl, -, rfl⟩ := eq_append_of_byteSlice h
    refine ⟨before ++ slice, behind, (List.append_assoc ..).symm, ?_⟩
    rw [byteLength_append]
  · rintro ⟨front, behind, hsource, rfl⟩
    obtain ⟨before, rest, rfl, rfl⟩ := ha
    obtain ⟨slice, rfl, rfl⟩ := exists_between hsource hle
    refine ⟨slice, ?_⟩
    rw [byteLength_append]
    exact byteSlice_append ..

/-- No cut of a text falls inside one of its characters. -/
theorem IsBoundary.not_inside {before behind : List Char} {ch : Char} {n : Nat}
    (h : IsBoundary (before ++ ch :: behind) n) :
    n ≤ Wkt.byteLength before ∨ Wkt.byteLength before + ch.utf8Size ≤ n := by
  obtain ⟨front, back, htext, rfl⟩ := h
  rcases Nat.le_or_ge (Wkt.byteLength front) (Wkt.byteLength before) with hle | hle
  · exact .inl hle
  · obtain ⟨m, rfl, hm⟩ := exists_between htext hle
    rw [byteLength_append]
    cases m with
    | nil => exact .inl (Nat.le_refl _)
    | cons x m =>
      obtain ⟨rfl, -⟩ := List.cons.inj hm
      rw [Wkt.byteLength]
      exact .inr (by omega)

theorem Token.Exact.placed {t : Token} (h : t.Exact source) : t.span.Placed source where
  start := h.place
  stop := by
    obtain ⟨as, ds, hs, -, hstop⟩ := eq_append_of_byteSlice h.lexeme
    refine ⟨as ++ t.lexeme.toList, ds, by rw [hs, List.append_assoc], ?_⟩
    rw [hstop, byteLength_append]
  start_le_stop := Nat.le_of_lt h.nonempty

/-! ## Properties of spans -/

/-- Spans with the one property also have the other one, and both properties still hold of a span
that goes on to the end of another one. -/
class Span.Joins (P R : Span → Prop) : Prop where
  sub : ∀ {a : Span}, P a → R a
  token : ∀ {a b : Span}, P a → P b → P (a.through b)
  phrase : ∀ {a b : Span}, R a → R b → R (a.through b)

instance : Span.Joins (Span.Placed source) (Span.Placed source) :=
  ⟨id, Span.Placed.through, Span.Placed.through⟩

/-- The span starts at an offset or behind it. -/
def Span.From (lo : Nat) (s : Span) : Prop := lo ≤ s.start

instance {lo : Nat} : Span.Joins (Span.From lo) fun _ => True :=
  ⟨fun _ => trivial, fun ha _ => ha, fun _ _ => trivial⟩

/-! ## Spans of phrases -/

mutual

def Operand.Spans (P : Span → Prop) : Operand → Prop
  | .literal s _ | .openBound s | .geometry s _ _ => P s
  | .property s name => P s ∧ P name.span
  | .call s _ args => P s ∧ Operand.AllSpans P args
  | .arithmetic s _ left right => P s ∧ left.Spans P ∧ right.Spans P
  | .interval s start stop => P s ∧ start.Spans P ∧ stop.Spans P

def Operand.AllSpans (P : Span → Prop) : List Operand → Prop
  | [] => True
  | o :: os => o.Spans P ∧ Operand.AllSpans P os

end

mutual

def Condition.Spans (P : Span → Prop) : Condition → Prop
  | .any s clauses | .all s clauses => P s ∧ Condition.AllSpans P clauses
  | .negation s clause => P s ∧ clause.Spans P
  | .compare s _ left right => P s ∧ left.Spans P ∧ right.Spans P
  | .between s _ value low high => P s ∧ value.Spans P ∧ low.Spans P ∧ high.Spans P
  | .like s _ value _ _ | .isNull s _ value => P s ∧ value.Spans P
  | .inList s _ value choices => P s ∧ value.Spans P ∧ Operand.AllSpans P choices
  | .call s _ args => P s ∧ Operand.AllSpans P args

def Condition.AllSpans (P : Span → Prop) : List Condition → Prop
  | [] => True
  | c :: cs => c.Spans P ∧ Condition.AllSpans P cs

end

section Spans

variable {P : Span → Prop} {s : Span} {o left right : Operand} {c : Condition}

theorem Operand.allSpans_iff {os : List Operand} : AllSpans P os ↔ ∀ o ∈ os, o.Spans P := by
  induction os with
  | nil => simp [AllSpans]
  | cons o os ih => simp [AllSpans, ih]

theorem Condition.allSpans_iff {cs : List Condition} : AllSpans P cs ↔ ∀ c ∈ cs, c.Spans P := by
  induction cs with
  | nil => simp [AllSpans]
  | cons c cs ih => simp [AllSpans, ih]

theorem Operand.Spans.span (h : o.Spans P) : P o.span := by
  cases o with
  | literal | openBound | geometry => exact h
  | _ => exact h.1

theorem Condition.Spans.span (h : c.Spans P) : P c.span := by
  cases c <;> exact h.1

theorem Operand.Spans.withSpan (h : o.Spans P) (hs : P s) : (o.withSpan s).Spans P := by
  cases o with
  | literal | openBound | geometry => exact hs
  | _ => exact ⟨hs, h.2⟩

theorem Operand.Spans.combine (hP : ∀ {a b : Span}, P a → P b → P (a.through b)) {op : ArithmeticOp}
    (hl : left.Spans P) (hr : right.Spans P) : (left.combine op right).Spans P :=
  ⟨hP hl.span hr.span, hl, hr⟩

end Spans

/-! ## Cursors -/

variable {P R : Span → Prop}

/-- The spans of the tokens ahead have the property, the end of the text is among them, and spans
that go on to the end of the last token taken have the property, too. -/
structure Cursor.Placed (P R : Span → Prop) (s : Cursor) : Prop where
  ahead : ∀ t ∈ s.ahead, P t.span
  ended : ∃ t ∈ s.ahead, t.kind = .finish
  lastStop : ∀ a : Span, (P a → P { a with stop := max s.lastStop a.stop }) ∧
    (R a → R { a with stop := max s.lastStop a.stop })

namespace Cursor.Placed

variable {s : Cursor}

theorem token (h : s.Placed P R) : P (s.token 0).span := by
  obtain ⟨u, hu, -⟩ := h.ended
  obtain ⟨ahead, stop, finish⟩ := s
  cases ahead with
  | nil => exact absurd hu List.not_mem_nil
  | cons t ts => exact h.ahead t (List.mem_cons_self ..)

variable [Span.Joins P R]

/-- A token that is not the end can be taken. -/
theorem next (h : s.Placed P R) (hk : s.kind 0 ≠ .finish) : s.next.Placed P R := by
  obtain ⟨u, hu, hfinish⟩ := h.ended
  obtain ⟨ahead, stop, finish⟩ := s
  cases ahead with
  | nil => exact absurd hu List.not_mem_nil
  | cons t ts =>
    have ht : t.kind ≠ .finish := hk
    obtain ⟨hplaced, hplaceds⟩ := List.forall_mem_cons.1 h.ahead
    refine ⟨hplaceds, ⟨u, ?_, hfinish⟩, fun a => ⟨fun ha => Span.Joins.token R ha hplaced,
      fun ha => Span.Joins.phrase P ha (Span.Joins.sub hplaced)⟩⟩
    exact (List.mem_cons.1 hu).resolve_left fun he => ht (he ▸ hfinish)

theorem next_of_kind {k : TokenKind} (h : s.Placed P R) (hk : s.kind 0 = k) (hne : k ≠ .finish) :
    s.next.Placed P R := h.next (hk ▸ hne)

/-- A phrase can start at the next token. -/
theorem first (h : s.Placed P R) : R (s.token 0).span := Span.Joins.sub h.token

omit [Span.Joins P R] in
/-- From the start of an earlier token through the last one taken. -/
theorem span {t : Token} (h : s.Placed P R) (ht : P t.span) :
    P { t.span with stop := max s.lastStop t.span.stop } := (h.lastStop _).1 ht

end Cursor.Placed

/-! ## Readers -/

/-- What is read is good, and the spans ahead have the property, as has that of an error. -/
def Stays (P R : Span → Prop) (good : α → Prop) : Except SyntaxError (α × Cursor) → Prop :=
  Outcome (fun a s => good a ∧ s.Placed P R) fun e => P e.span

/-- The reader keeps the property wherever it starts. -/
def Keeps (P R : Span → Prop) (good : α → Prop) (x : Reader α) : Prop :=
  ∀ s, s.Placed P R → Stays P R good (x s)

/-- So does a reader of what is one level deeper, if a level is left. -/
def KeepsBelow (P R : Span → Prop) (good : α → Prop) (below : Option (Reader α)) : Prop :=
  ∀ x, below = some x → Keeps P R good x

namespace Stays

variable {good good' : α → Prop} {result : β → Prop} {x : Reader α} {f : α → Reader β} {s : Cursor}
  {a : α} {t : Token} {expected : String} {hint : Option String}

theorem pure (h : s.Placed P R) (ha : good a) : Stays P R good ((pure a : Reader α) s) :=
  ⟨ha, h⟩

theorem bind (hx : Stays P R good (x s))
    (hf : ∀ a s', good a → s'.Placed P R → Stays P R result (f a s')) :
    Stays P R result ((x >>= f) s) :=
  Outcome.bind hx (fun a s' h => hf a s' h.1 h.2) fun _ h => h

theorem mono (hx : Stays P R good (x s)) (hg : ∀ a, good a → good' a) :
    Stays P R good' (x s) :=
  Outcome.mono hx (fun a _ h => ⟨hg a h.1, h.2⟩) fun _ h => h

theorem failHere (h : s.Placed P R) :
    Stays P R good ((failHere expected hint : Reader α) s) := h.token

theorem expectKind [Span.Joins P R] {k : TokenKind} (h : s.Placed P R) (hk : k ≠ .finish)
    {f : Unit → Reader α} (hf : s.next.Placed P R → Stays P R good (f () s.next)) :
    Stays P R good ((expectKind k expected >>= f) s) := by
  rw [expectKind_bind]
  split
  · exact hf (h.next_of_kind ‹_› hk)
  · exact h.token

theorem expect [Span.Joins P R] {m : Mark} (h : s.Placed P R) {f : Unit → Reader α}
    (hf : s.next.Placed P R → Stays P R good (f () s.next)) :
    Stays P R good ((expect m >>= f) s) := expectKind (k := .mark m) h (by simp) hf

theorem advance [Span.Joins P R] (h : s.Placed P R) (hk : s.kind 0 ≠ .finish) {f : Token → Reader α}
    (hf : s.next.Placed P R → Stays P R good (f (s.token 0) s.next)) :
    Stays P R good ((advance >>= f) s) := by
  rw [advance_bind]
  exact hf (h.next hk)

/-- A phrase ends with the last token taken. -/
theorem spanned (h : s.Placed P R) (ht : R t.span) {f : Span → α}
    (hf : ∀ span, R span → good (f span)) :
    Stays P R good ((spanFrom t >>= fun span => (Pure.pure (f span) : Reader α)) s) :=
  ⟨hf _ ((h.lastStop _).2 ht), h⟩

theorem deeper {γ : Type} {g : Grammar} {below : Option γ} {body : γ → Reader α}
    (h : s.Placed P R) (hb : ∀ r, below = some r → Stays P R good (body r s)) :
    Stays P R good (deeper g below body s) := by
  cases below with
  | none => exact h.token
  | some r => exact hb r rfl

end Stays

variable [Span.Joins P R]

section Sequences

variable {γ : Type} {good : α → Prop} {step : Reader (Option α)} {item : Reader α} {s : Cursor}

omit [Span.Joins P R] in
theorem keeps_repeated (hstep : Keeps P R (fun o => ∀ a, o = some a → good a) step) (n : Nat) :
    Keeps P R (fun as => ∀ a ∈ as, good a) (repeated step n) := by
  induction n with
  | zero => exact fun s h => .pure h (by simp)
  | succ n ih =>
    intro s h
    refine (hstep s h).bind fun o s₁ ho h₁ => ?_
    cases o with
    | none => exact .pure h₁ (by simp)
    | some a =>
      refine (ih s₁ h₁).bind fun as s₂ has h₂ => ?_
      exact .pure h₂ (List.forall_mem_cons.2 ⟨ho a rfl, has⟩)

omit [Span.Joins P R] in
theorem keeps_many (hstep : Keeps P R (fun o => ∀ a, o = some a → good a) step) :
    Keeps P R (fun as => ∀ a ∈ as, good a) (many step) :=
  fun s h => keeps_repeated hstep s.ahead.length s h

theorem keeps_linked {link? : TokenKind → Option γ} (hlink : link? .finish = none)
    (hitem : Keeps P R good item) :
    Keeps P R (fun o => ∀ p, o = some p → good p.2) (linked link? item) := by
  intro s h
  rw [linked, peekKind_bind]
  cases hl : link? (s.kind 0) with
  | none => exact .pure h (by simp)
  | some b =>
    have hk : s.kind 0 ≠ .finish := TokenKind.ne_finish hl hlink
    refine Stays.advance h hk fun h₁ => (hitem _ h₁).bind fun a s' ha h' => .pure h' ?_
    rintro _ ⟨⟩
    exact ha

theorem keeps_commaList (hitem : Keeps P R good item) :
    Keeps P R (fun as => ∀ a ∈ as, good a) (commaList item) := by
  intro s h
  refine (hitem s h).bind fun a s₁ ha h₁ => ?_
  refine (keeps_many (keeps_linked rfl hitem) s₁ h₁).bind fun links s₂ hlinks h₂ => ?_
  refine .pure h₂ (List.forall_mem_cons.2 ⟨ha, fun b hb => ?_⟩)
  obtain ⟨p, hp, rfl⟩ := List.mem_map.1 hb
  exact hlinks p hp

end Sequences

namespace Operand

variable {g : Grammar} {s : Cursor} {below : Option (Reader Operand)}
  {operand item : Reader Operand}
  {w : String}

/-! ## Literals -/

theorem keeps_number : Keeps P R (fun _ => True) readNumber := by
  intro s h
  rw [readNumber, advance_bind]
  cases hk : (s.token 0).kind with
  | number numeral =>
    dsimp only
    cases Literal.readNumber numeral with
    | ok n => exact .pure (h.next_of_kind hk (by simp)) trivial
    | error e => exact h.token
  | _ => exact h.token

theorem keeps_magnitude (negative : Bool) :
    Keeps P R (fun _ => True) (readMagnitude negative) := by
  intro s h
  rw [readMagnitude, atNumber_bind]
  split
  · refine (keeps_number s h).bind fun l s' _ h' => ?_
    cases l with
    | integer | double => exact .pure h' trivial
    | _ => exact .failHere h'
  · exact .failHere h

theorem keeps_ordinate : Keeps P R (fun _ => True) readOrdinate := by
  intro s h
  rw [readOrdinate_eq]
  cases hs : sign? (s.kind 0) with
  | none => exact keeps_magnitude false s h
  | some negative =>
    have hk : s.kind 0 ≠ .finish := TokenKind.ne_finish hs rfl
    exact keeps_magnitude negative s.next (h.next hk)

theorem stays_envelope (h : s.Placed P R) (hk : s.kind 0 = .identifier w) :
    Stays P R (Spans R) (readEnvelope s) := by
  rw [readEnvelope, advance_bind]
  refine .expect (h.next_of_kind hk (by simp)) fun h₁ => ?_
  refine (keeps_ordinate _ h₁).bind fun west s₂ _ h₂ => .expect h₂ fun h₂ => ?_
  refine (keeps_ordinate _ h₂).bind fun south s₃ _ h₃ => .expect h₃ fun h₃ => ?_
  refine (keeps_ordinate _ h₃).bind fun east s₄ _ h₄ => .expect h₄ fun h₄ => ?_
  refine (keeps_ordinate _ h₄).bind fun north s₅ _ h₅ => .expect h₅ fun h₅ => ?_
  exact .spanned h₅ h.first fun _ hspan => hspan

theorem stays_quotedInstant (h : s.Placed P R) (hk : s.kind 0 = .identifier w) :
    Stays P R (fun p => P p.1.span) (readQuotedInstant s) := by
  rw [readQuotedInstant, advance_bind]
  refine .expect (h.next_of_kind hk (by simp)) fun h₁ => ?_
  rw [peek_bind]
  cases hs : (s.next.next.token 0).kind with
  | string content =>
    have hne : s.next.next.kind 0 ≠ .finish := by
      simp [Cursor.kind, hs]
    refine Stays.advance h₁ hne fun h₂ => .expect h₂ fun h₃ => ?_
    exact .pure h₃ h₁.token
  | _ => exact h₁.token

theorem stays_date (h : s.Placed P R) (hk : s.kind 0 = .identifier w) :
    Stays P R (Spans R) (readDate s) := by
  rw [readDate, peek_bind]
  refine (stays_quotedInstant h hk).bind fun p s' hp h' => ?_
  dsimp only
  cases Literal.readDate p.2 with
  | ok d => exact .spanned h' h.first fun _ hspan => hspan
  | error e => exact hp

theorem stays_timestamp (h : s.Placed P R) (hk : s.kind 0 = .identifier w) :
    Stays P R (Spans R) (readTimestamp g s) := by
  rw [readTimestamp, peek_bind]
  refine (stays_quotedInstant h hk).bind fun p s' hp h' => ?_
  dsimp only
  cases Literal.readTimestamp (g.dialect.allows .naiveTimestamps) p.2 with
  | ok i => exact .spanned h' h.first fun _ hspan => hspan
  | error e => exact hp

/-! ## Geometries -/

/-- The tokens of a geometry are passed over up to its last parenthesis. -/
theorem stays_closing {limit depth : Nat} {fin : Token} {ts : List Token}
    (hts : ∀ t ∈ ts, P t.span) (hend : ∃ t ∈ ts, t.kind = .finish) :
    Stays P R (fun _ => True) ((closing limit fin depth ts).map fun p =>
      ((), { s with ahead := p.2, lastStop := p.1 })) := by
  induction ts generalizing depth with
  | nil => exact absurd hend.choose_spec.1 List.not_mem_nil
  | cons t ts ih =>
    obtain ⟨ht, hts⟩ := List.forall_mem_cons.1 hts
    have hrest (hne : t.kind ≠ .finish) : ∃ u ∈ ts, u.kind = .finish := by
      obtain ⟨u, hu, hfinish⟩ := hend
      exact ⟨u, (List.mem_cons.1 hu).resolve_left fun he => hne (he ▸ hfinish), hfinish⟩
    rw [closing]
    split
    · rename_i hk
      split
      · exact ht
      · exact ih hts (hrest (by simp [hk]))
    · rename_i hk
      split
      · exact ⟨trivial, hts, hrest (by simp [hk]), fun _ => ⟨fun ha => Span.Joins.token R ha ht,
          fun ha => Span.Joins.phrase P ha (Span.Joins.sub ht)⟩⟩
      · exact ih hts (hrest (by simp [hk]))
    · exact ht
    · rename_i hk
      exact ih hts (hrest hk)

theorem keeps_tag : Keeps P R (fun _ => True) readTag := by
  intro s h
  rw [readTag, peekKind_bind]
  cases hk : s.kind 0 with
  | identifier word =>
    show Stays P R (fun _ => True) ((if _ then _ else _ : Reader (Option Unit)) s)
    split
    · exact Stays.advance h (by simp [hk]) fun h' => .pure h' trivial
    · exact .pure h trivial
  | _ => exact .pure h trivial

theorem keeps_skipTags : Keeps P R (fun _ => True) skipTags := by
  intro s h
  rw [skipTags_eq]
  have htags : Keeps P R (fun _ => True) (many readTag) := fun s h =>
    (keeps_many (fun s h => (keeps_tag s h).mono fun _ _ _ _ => trivial) s h).mono
      fun _ _ => trivial
  refine (htags s h).bind fun _ s' _ h' => ?_
  rw [readEmpty, peekKind_bind]
  cases hk : s'.kind 0 with
  | identifier word =>
    show Stays P R (fun _ => True) ((if _ then _ else _ : Reader Bool) s')
    split
    · exact Stays.advance h' (by simp [hk]) fun h'' => .pure h'' trivial
    · exact .pure h' trivial
  | _ => exact .pure h' trivial

theorem keeps_passOver : Keeps P R (fun _ => True) (passOver g) := by
  intro s h
  refine Stays.expect h fun h₁ => ?_
  have hc : Stays P R (fun _ => True)
      ((closing g.dialect.maxDepth s.next.finish 1 s.next.ahead).map fun p =>
        ((), { s.next with ahead := p.2, lastStop := p.1 })) :=
    stays_closing h₁.ahead h₁.ended
  rw [get_bind]
  cases hr : closing g.dialect.maxDepth s.next.finish 1 s.next.ahead with
  | error e =>
    rw [hr] at hc
    exact hc
  | ok p =>
    rw [hr] at hc
    exact hc

theorem stays_handOver {srid : Option Int64} {t : Token} (h : s.Placed P R) (ht : P t.span) :
    Stays P R (Spans R) (handOver g srid t s) := by
  rw [handOver, get_bind, spanFrom_bind]
  cases byteSlice g.source.toList t.span.start s.lastStop with
  | none => exact h.span ht
  | some cs =>
    dsimp only
    cases g.readGeometry (String.ofList cs) with
    | ok shape => exact .pure h (Span.Joins.sub (h.span ht))
    | error e => exact h.span ht

theorem stays_geometry {srid : Option Int64} (h : s.Placed P R) (hk : s.kind 0 = .identifier w) :
    Stays P R (Spans R) (readGeometry g srid s) := by
  rw [readGeometry_eq, advance_bind]
  refine (keeps_skipTags _ (h.next_of_kind hk (by simp))).bind fun empty s₁ _ h₁ => ?_
  cases empty with
  | true => exact stays_handOver h₁ h.token
  | false => exact (keeps_passOver s₁ h₁).bind fun _ s₂ _ h₂ => stays_handOver h₂ h.token

theorem stays_withSrid (h : s.Placed P R) (hk : s.kind 0 = .identifier w)
    (hs : atSrid s = true) : Stays P R (Spans R) (readWithSrid g s) := by
  obtain ⟨hequal, ⟨n, hnumber⟩, hsemicolon⟩ := atSrid_iff.1 hs
  have h₁ := h.next_of_kind hk (by simp)
  have h₂ := h₁.next_of_kind hequal (by simp)
  have h₃ := h₂.next_of_kind hnumber (by simp)
  have h₄ := h₃.next_of_kind hsemicolon (by simp)
  rw [readWithSrid, advance_bind, advance_bind, advance_bind]
  have hkind : (s.next.next.token 0).kind = .number n := hnumber
  rw [hkind]
  dsimp only
  cases readInt64? n.toList with
  | none => exact h₂.token
  | some srid =>
    show Stays P R _ ((advance >>= _) s.next.next.next)
    rw [advance_bind, get_bind]
    show Stays P R _ ((if atGeometry s.next.next.next.next = true then _ else _ : Reader Operand)
      s.next.next.next.next)
    split
    · rename_i hg
      obtain ⟨word, hword, -⟩ := atGeometry_iff.1 hg
      refine (stays_geometry h₄ hword).bind fun o s' ho h' => ?_
      exact .spanned h' h.first fun span hspan => ho.withSpan hspan
    · exact .failHere h₄

/-! ## Calls and intervals -/

variable (hb : KeepsBelow P R (Spans R) below)

include hb

theorem stays_call (h : s.Placed P R) (hk : s.kind 0 = .identifier w) :
    Stays P R (Spans R) (readCall g below w s) := by
  rw [readCall]
  split
  · exact .failHere h
  rw [advance_bind]
  refine .expect (h.next_of_kind hk (by simp)) fun h₁ => .deeper h₁ fun x hx => ?_
  rw [eat_bind]
  split
  · rename_i hp
    exact .spanned (h₁.next_of_kind hp (by simp)) h.first fun span hspan => ⟨hspan, trivial⟩
  · refine (keeps_commaList (hb x hx) _ h₁).bind fun args s₂ hargs h₂ => ?_
    refine .expectKind h₂ (by simp) fun h₃ => ?_
    exact .spanned h₃ h.first fun span hspan => ⟨hspan, allSpans_iff.2 hargs⟩

omit hb in
theorem keeps_bound (ho : Keeps P R (Spans R) operand) :
    Keeps P R (Spans R) (readBound g operand) := by
  intro s h
  cases hk : s.kind 0 with
  | string content =>
    rw [readBound_eq hk]
    have hbound : ∀ bound, g.stringBound? (s.token 0).span content = some bound →
        bound.Spans R := by
      intro bound hbound
      unfold Grammar.stringBound? at hbound
      split at hbound
      · cases hbound
        exact h.first
      · split at hbound
        · cases hbound
          exact h.first
        · split at hbound
          · cases hbound
            exact h.first
          · cases hbound
    cases hs : g.stringBound? (s.token 0).span content with
    | none => exact ho s h
    | some bound =>
      exact Stays.advance h (by simp [hk]) fun h' => .pure h' (hbound bound hs)
  | _ =>
    have hk : (s.token 0).kind = _ := hk
    rw [readBound, peek_bind, hk]
    exact ho s h

theorem stays_interval (h : s.Placed P R) (hk : s.kind 0 = .identifier w) :
    Stays P R (Spans R) (readInterval g below s) := by
  rw [readInterval, advance_bind]
  refine .expect (h.next_of_kind hk (by simp)) fun h₁ => .deeper h₁ fun x hx => ?_
  refine (keeps_bound (hb x hx) _ h₁).bind fun first s₂ hfirst h₂ => .expect h₂ fun h₂ => ?_
  refine (keeps_bound (hb x hx) _ h₂).bind fun last s₃ hlast h₃ => .expect h₃ fun h₃ => ?_
  exact .spanned h₃ h.first fun span hspan => ⟨hspan, hfirst, hlast⟩

/-! ## Operands -/

theorem stays_word (h : s.Placed P R) (hk : s.kind 0 = .identifier w) :
    Stays P R (Spans R) (readWord g below w s) := by
  rw [readWord, get_bind]
  split
  · rename_i hs
    exact stays_withSrid h hk (Bool.and_eq_true_iff.1 hs).2
  split
  · exact stays_geometry h hk
  split
  · rw [advance_bind]
    exact .pure (h.next_of_kind hk (by simp)) ⟨h.first, h.first⟩
  split
  · exact stays_envelope h hk
  split
  · exact stays_date h hk
  split
  · exact stays_timestamp h hk
  split
  · exact stays_interval hb h hk
  · exact stays_call hb h hk

theorem stays_group {close : Mark} (h : s.Placed P R) (hk : s.kind 0 ≠ .finish) :
    Stays P R (Spans R) (readGroup g below close s) := by
  rw [readGroup, advance_bind]
  refine .deeper (h.next hk) fun x hx => ?_
  refine (hb x hx _ (h.next hk)).bind fun o s₁ ho h₁ => .expect h₁ fun h₂ => ?_
  exact .spanned h₂ h.first fun span hspan => ho.withSpan hspan

theorem keeps_primary : Keeps P R (Spans R) (readPrimary g below) := by
  intro s h
  cases hk : s.kind 0 with
  | identifier word =>
    rw [readPrimary_word hk]
    exact stays_word hb h hk
  | number numeral =>
    have hk : (s.token 0).kind = .number numeral := hk
    rw [readPrimary, peek_bind, hk]
    exact (keeps_number s h).bind fun l s' _ h' => .pure h' h.first
  | string content =>
    rw [readPrimary_atom (by rw [hk]; rfl)]
    exact ⟨h.first, h.next_of_kind hk (by simp)⟩
  | quotedIdentifier name =>
    rw [readPrimary_atom (by rw [hk]; rfl)]
    exact ⟨⟨h.first, h.first⟩, h.next_of_kind hk (by simp)⟩
  | keyword k =>
    cases k with
    | isTrue | isFalse =>
      rw [readPrimary_atom (by rw [hk]; rfl)]
      exact ⟨h.first, h.next_of_kind hk (by simp)⟩
    | _ =>
      have hk : (s.token 0).kind = _ := hk
      rw [readPrimary, peek_bind, hk]
      exact h.token
  | mark m =>
    cases m with
    | leftParen =>
      rw [readPrimary_group (by rw [hk]; rfl)]
      exact stays_group hb h (by simp [hk])
    | leftBracket =>
      have hk' : (s.token 0).kind = .mark .leftBracket := hk
      rw [readPrimary, peek_bind, hk']
      show Stays P R _ ((if _ then _ else _ : Reader Operand) s)
      split
      · exact stays_group hb h (by simp [hk])
      · exact .failHere h
    | _ =>
      have hk : (s.token 0).kind = _ := hk
      rw [readPrimary, peek_bind, hk]
      exact h.token
  | finish =>
    have hk : (s.token 0).kind = .finish := hk
    rw [readPrimary, peek_bind, hk]
    exact h.token

omit [Span.Joins P R] hb in
theorem spans_foldl (hR : ∀ {a b : Span}, R a → R b → R (a.through b))
    {links : List (ArithmeticOp × Operand)} {o : Operand} (ho : o.Spans R)
    (hl : ∀ p ∈ links, p.2.Spans R) :
    (links.foldl (fun left p => left.combine p.1 p.2) o).Spans R := by
  induction links generalizing o with
  | nil => exact ho
  | cons p links ih =>
    obtain ⟨hp, hl⟩ := List.forall_mem_cons.1 hl
    exact ih (.combine hR ho hp) hl

omit hb in
theorem stays_chain {op? : TokenKind → Option ArithmeticOp} (hop : op? .finish = none)
    (hitem : Keeps P R (Spans R) item) (h : Stays P R (Spans R) (item s)) :
    Stays P R (Spans R) (readChain op? item s) := by
  refine h.bind fun o s₁ ho h₁ => ?_
  refine (keeps_many (keeps_linked hop hitem) s₁ h₁).bind fun links s₂ hlinks h₂ => ?_
  exact .pure h₂ (spans_foldl (Span.Joins.phrase P) ho hlinks)

omit hb in
theorem keeps_chain {op? : TokenKind → Option ArithmeticOp} (hop : op? .finish = none)
    (hitem : Keeps P R (Spans R) item) : Keeps P R (Spans R) (readChain op? item) :=
  fun s h => stays_chain hop hitem (hitem s h)

omit hb in
theorem keeps_sum (hitem : Keeps P R (Spans R) item) :
    Keeps P R (Spans R) (readSum item) :=
  keeps_chain rfl (keeps_chain rfl hitem)

theorem keeps_factorOver : Keeps P R (Spans R) (readFactorOver g below) := by
  intro s h
  cases hs : sign? (s.kind 0) with
  | none =>
    rw [readFactorOver_unsigned hs]
    refine keeps_primary (fun x hx => ?_) s h
    obtain ⟨r, hr, rfl⟩ := Option.map_eq_some_iff.1 hx
    exact keeps_sum (hb r hr)
  | some negative =>
    have hk : s.kind 0 ≠ .finish := TokenKind.ne_finish hs rfl
    have h₁ := h.next hk
    by_cases hn : ∃ numeral, s.next.kind 0 = .number numeral
    · obtain ⟨numeral, hn⟩ := hn
      rw [readFactorOver_number hs hn]
      refine (keeps_number _ h₁).bind fun l s₂ _ h₂ => ?_
      exact .spanned h₂ h.first fun span hspan => hspan
    · rw [readFactorOver_signed hs fun w hw => hn ⟨w, hw⟩]
      refine .deeper h₁ fun x hx => (hb x hx _ h₁).bind fun o s₂ ho h₂ => ?_
      cases negative with
      | true => exact .pure h₂ (.combine (Span.Joins.phrase P)
          (show Spans _ (.literal _ _) from h.first) ho)
      | false => exact .pure h₂ ho

omit hb in
theorem keeps_factor (g : Grammar) (room : Nat) :
    Keeps P R (Spans R) (readFactor g room) := by
  induction room with
  | zero => exact keeps_factorOver nofun
  | succ room ih =>
    refine keeps_factorOver fun x hx => ?_
    cases hx
    exact ih

omit hb in
theorem keeps_read (g : Grammar) (room : Nat) :
    Keeps P R (Spans R) (read g room) := keeps_sum (keeps_factor g room)

end Operand

namespace Condition

variable {g : Grammar} {s : Cursor} {operand : Reader Operand}
  {belowOperand : Option (Reader Operand)}
  {below : Option (Reader Condition)} {item group predicate : Reader Condition} {start : Token}
  {value : Operand}

/-! ## Predicates -/

theorem keeps_pattern : Keeps P R (fun _ => True) readPattern := by
  intro s h
  rw [readPattern, peekKind_bind]
  cases hk : s.kind 0 with
  | string content => exact Stays.advance h (by simp [hk]) fun h' => .pure h' trivial
  | _ => exact h.token

section Predicates

variable (ho : Keeps P R (Operand.Spans R) operand)
  (hb : KeepsBelow P R (Operand.Spans R) belowOperand)

include hb in
theorem keeps_choices :
    Keeps P R (Operand.AllSpans R) (readChoices g belowOperand) := by
  intro s h
  refine Stays.expect h fun h₁ => .deeper h₁ fun x hx => ?_
  refine (keeps_commaList (hb x hx) _ h₁).bind fun choices s₂ hchoices h₂ => ?_
  refine .expectKind h₂ (by simp) fun h₃ => ?_
  exact .pure h₃ (Operand.allSpans_iff.2 hchoices)

include ho hb

theorem stays_negatable (h : s.Placed P R) (hstart : R start.span)
    (hv : value.Spans R) (negated : Bool) :
    Stays P R (Spans R)
      (readNegatable g operand belowOperand start value negated s) := by
  have hfail {expected : String} {hint : Option String} :
      Stays P R (Spans R)
        ((failHere expected hint : Reader Condition) s) := .failHere h
  rw [readNegatable, peekKind_bind]
  cases hk : s.kind 0 with
  | keyword k =>
    cases k with
    | between =>
      refine Stays.advance h (by simp [hk]) fun h₁ => ?_
      refine (ho _ h₁).bind fun low s₂ hlow h₂ => .expectKind h₂ (by simp) fun h₃ => ?_
      refine (ho _ h₃).bind fun high s₄ hhigh h₄ => ?_
      exact .spanned h₄ hstart fun span hspan => ⟨hspan, hv, hlow, hhigh⟩
    | like =>
      refine Stays.advance h (by simp [hk]) fun h₁ => ?_
      refine (keeps_pattern _ h₁).bind fun pattern s₂ _ h₂ => ?_
      exact .spanned h₂ hstart fun span hspan => ⟨hspan, hv⟩
    | inList =>
      refine Stays.advance h (by simp [hk]) fun h₁ => ?_
      refine (keeps_choices hb _ h₁).bind fun choices s₂ hchoices h₂ => ?_
      exact .spanned h₂ hstart fun span hspan => ⟨hspan, hv, hchoices⟩
    | _ => exact hfail
  | identifier word =>
    by_cases hw : (sameWord word "ILIKE" && g.dialect.allows .ilike) = true
    · simp only [hw, if_true]
      refine Stays.advance h (by simp [hk]) fun h₁ => ?_
      refine (keeps_pattern _ h₁).bind fun pattern s₂ _ h₂ => ?_
      exact .spanned h₂ hstart fun span hspan => ⟨hspan, hv⟩
    · simp only [hw]
      exact hfail
  | _ => exact hfail

omit [Span.Joins P R] ho hb in
theorem keeps_refuseRemoved : Keeps P R (fun _ => True) refuseRemoved := by
  intro s h
  rw [refuseRemoved, get_bind]
  cases s.kind 0 with
  | keyword k =>
    cases k with
    | inList => exact h.token
    | _ => exact .pure h trivial
  | identifier word =>
    show Stays P R (fun _ => True) ((if _ then _ else _ : Reader Unit) s)
    split
    · exact .failHere h
    · exact .pure h trivial
  | _ => exact .pure h trivial

theorem stays_rest (h : s.Placed P R) (hstart : R start.span)
    (hv : value.Spans R) :
    Stays P R (Spans R) (readRest g operand belowOperand start value s) := by
  have hnegatable := stays_negatable (g := g) ho hb h hstart hv false
  have hnull {s : Cursor} (h : s.Placed P R) (negated : Bool) :
      Stays P R (Spans R) (readNull start value negated s) :=
    Stays.expectKind h (by simp) fun h' => .spanned h' hstart fun span hspan => ⟨hspan, hv⟩
  by_cases he : s.EndsPredicate
  · rcases endsPredicate_cases he with hk | hk | hk | hk | hk
    all_goals
      rw [readRest, peekKind_bind, hk]
      cases value with
      | call => exact .pure h hv
      | _ => exact hnegatable
  cases hop : comparisonOp? (s.kind 0) with
  | some op =>
    have hk : s.kind 0 ≠ .finish := fun hk => he (by rw [Cursor.EndsPredicate, hk]; rfl)
    rw [readRest_compare hop]
    refine (ho _ (h.next hk)).bind fun right s₂ hright h₂ => ?_
    exact .spanned h₂ hstart fun span hspan => ⟨hspan, hv, hright⟩
  | none =>
    cases hk : s.kind 0 with
    | keyword k =>
      cases k with
      | and | or => exact absurd (by rw [Cursor.EndsPredicate, hk]; rfl) he
      | not =>
        rw [readRest_not hk]
        exact stays_negatable ho hb (h.next_of_kind hk (by simp)) hstart hv true
      | is =>
        have h₁ := h.next_of_kind hk (by simp)
        by_cases hn : s.next.kind 0 = .keyword .not
        · rw [readRest_isNot hk hn]
          exact hnull (h₁.next_of_kind hn (by simp)) true
        · rw [readRest_is hk hn]
          exact hnull h₁ false
      | _ =>
        rw [readRest, peekKind_bind, hk]
        exact hnegatable
    | mark m =>
      cases m with
      | equal | notEqual | less | lessOrEqual | greater | greaterOrEqual =>
        rw [hk] at hop
        cases hop
      | rightParen | rightBracket => exact absurd (by rw [Cursor.EndsPredicate, hk]; rfl) he
      | bang =>
        rw [readRest, peekKind_bind, hk]
        exact h.token
      | _ =>
        rw [readRest, peekKind_bind, hk]
        exact hnegatable
    | finish => exact absurd (by rw [Cursor.EndsPredicate, hk]; rfl) he
    | _ =>
      rw [readRest, peekKind_bind, hk]
      exact hnegatable

theorem keeps_predicate :
    Keeps P R (Spans R) (readPredicate g operand belowOperand) := by
  intro s h
  rw [readPredicate_eq]
  refine (keeps_refuseRemoved s h).bind fun _ s₁ _ h₁ => ?_
  rw [peek_bind]
  exact (ho s₁ h₁).bind fun o s₂ hv h₂ => stays_rest ho hb h₂ h₁.first hv

end Predicates

/-! ## Groups and chains -/

theorem stays_group {close : Mark}
    (hb : KeepsBelow P R (Spans R) below) (h : s.Placed P R)
    (hk : s.kind 0 ≠ .finish) :
    Stays P R (Spans R) (readGroup g below close s) := by
  refine Stays.advance h hk fun h₁ => .deeper h₁ fun x hx => ?_
  exact (hb x hx _ h₁).bind fun c s₂ hc h₂ => .expect h₂ fun h₃ => .pure h₃ hc

omit [Span.Joins P R] in
/-- Of two errors either is kept. -/
theorem stays_orPredicate {good : Condition → Prop} (hg : Stays P R good (group s))
    (hp : Stays P R good (predicate s)) :
    Stays P R good (orPredicate group predicate s) := by
  rw [orPredicate]
  cases hr : group s with
  | ok p =>
    rw [hr] at hg
    show Stays P R good (if atOperator p.2 then predicate s else .ok p)
    split
    · exact hp
    · exact hg
  | error e =>
    rw [hr] at hg
    cases hr' : predicate s with
    | ok p =>
      rw [hr'] at hp
      exact hp
    | error e' =>
      rw [hr'] at hp
      show P (e.furthest e').span
      rw [SyntaxError.furthest]
      split
      · exact hp
      · exact hg

theorem keeps_primary (ho : Keeps P R (Operand.Spans R) operand)
    (hbo : KeepsBelow P R (Operand.Spans R) belowOperand)
    (hb : KeepsBelow P R (Spans R) below) :
    Keeps P R (Spans R) (readPrimary g operand belowOperand below) := by
  intro s h
  have hpredicate := keeps_predicate (g := g) ho hbo s h
  by_cases hk : s.kind 0 = .mark .leftBracket → g.dialect.allows .bracketGrouping = true
  · rw [readPrimary, bind_of_ok (groupClose_eq hk)]
    cases hm : g.close? (s.kind 0) with
    | none => exact hpredicate
    | some m =>
      have hne : s.kind 0 ≠ .finish := TokenKind.ne_finish hm rfl
      exact stays_orPredicate (stays_group hb h hne) hpredicate
  · -- a bracket that groups nothing is an error of its own
    obtain ⟨hk, hallow⟩ := Classical.not_imp.1 hk
    rw [readPrimary, groupClose, bind_assoc, peekKind_bind, hk]
    show Stays P R _ (((if _ then _ else _ : Reader (Option Mark)) >>= _) s)
    rw [if_neg hallow]
    exact h.token

omit [Span.Joins P R] in
theorem spans_foldl (hR : ∀ {a b : Span}, R a → R b → R (a.through b)) {cs : List Condition}
    {span : Span} (hs : R span) (hcs : ∀ c ∈ cs, c.Spans R) :
    R (cs.foldl (fun span c => span.through c.span) span) := by
  induction cs generalizing span with
  | nil => exact hs
  | cons c cs ih =>
    obtain ⟨hc, hcs⟩ := List.forall_mem_cons.1 hcs
    exact ih (hR hs hc.span) hcs

theorem keeps_chain {k : Keyword} {join : Span → List Condition → Condition}
    (hjoin : ∀ span cs, R span → (∀ c ∈ cs, c.Spans R) →
      (join span cs).Spans R)
    (hitem : Keeps P R (Spans R) item) :
    Keeps P R (Spans R) (readChain k join item) := by
  intro s h
  rw [readChain_eq]
  refine (hitem s h).bind fun c s₁ hc h₁ => ?_
  refine (keeps_many (keeps_linked rfl hitem) s₁ h₁).bind fun links s₂ hlinks h₂ => .pure h₂ ?_
  have hrest : ∀ c ∈ links.map (·.2), c.Spans R := by
    intro c hc
    obtain ⟨p, hp, rfl⟩ := List.mem_map.1 hc
    exact hlinks p hp
  split
  · exact hc
  · exact hjoin _ _ (spans_foldl (Span.Joins.phrase P) hc.span hrest)
      (List.forall_mem_cons.2 ⟨hc, hrest⟩)

theorem keeps_chains (hitem : Keeps P R (Spans R) item) :
    Keeps P R (Spans R) (readChains item) :=
  keeps_chain (fun _ _ hs hcs => ⟨hs, allSpans_iff.2 hcs⟩)
    (keeps_chain (fun _ _ hs hcs => ⟨hs, allSpans_iff.2 hcs⟩) hitem)

theorem keeps_negationOver (ho : Keeps P R (Operand.Spans R) operand)
    (hbo : KeepsBelow P R (Operand.Spans R) belowOperand)
    (hb : KeepsBelow P R (Spans R) below) :
    Keeps P R (Spans R) (readNegationOver g operand belowOperand below) := by
  intro s h
  rw [readNegationOver_eq]
  split
  · rename_i hk
    have h₁ := h.next_of_kind hk (by simp)
    refine .deeper h₁ fun x hx => (hb x hx _ h₁).bind fun c s₂ hc h₂ => ?_
    exact .spanned h₂ h.first fun span hspan => ⟨hspan, hc⟩
  · refine keeps_primary ho hbo (fun x hx => ?_) s h
    obtain ⟨r, hr, rfl⟩ := Option.map_eq_some_iff.1 hx
    exact keeps_chains (hb r hr)

theorem keeps_negation (g : Grammar) (room : Nat) :
    Keeps P R (Spans R) (readNegation g room) := by
  induction room with
  | zero => exact keeps_negationOver (Operand.keeps_read g 0) nofun nofun
  | succ room ih =>
    refine keeps_negationOver (Operand.keeps_read g (room + 1)) (fun x hx => ?_) fun x hx => ?_
    · cases hx
      exact Operand.keeps_read g room
    · cases hx
      exact ih

theorem keeps_read (g : Grammar) (room : Nat) :
    Keeps P R (Spans R) (read g room) := keeps_chains (keeps_negation g room)

end Condition

/-! ## Complete texts -/

namespace Grammar

variable {g : Grammar} {tokens : List Token}

omit [Span.Joins P R] in
theorem keeps_expectFinish : Keeps P R (fun _ => True) expectFinish := by
  intro s h
  rw [expectFinish, peekKind_bind]
  split
  · exact .failHere h
  · exact .pure h trivial

omit [Span.Joins P R] in
theorem placed_of_keeps {good : α → Prop} {x : Reader α} (hx : Keeps P R good x)
    (htokens : ∀ t ∈ tokens, P t.span) (hend : ∃ t ∈ tokens, t.kind = .finish)
    {r : Except SyntaxError α}
    (hr : r = (do
      let a ← x
      expectFinish
      return a : Reader α).run' (.ofTokens g.source tokens)) :
    (∀ a, r = .ok a → good a) ∧ ∀ e, r = .error e → P e.span := by
  have h : (Cursor.ofTokens g.source tokens).Placed P R :=
    ⟨htokens, hend, fun a => by simp [Cursor.ofTokens]⟩
  have hall : Stays P R good ((do
      let a ← x
      expectFinish
      return a : Reader α) (.ofTokens g.source tokens)) := by
    refine (hx _ h).bind fun a s₁ ha h₁ => ?_
    exact (keeps_expectFinish s₁ h₁).bind fun _ s₂ _ h₂ => .pure h₂ ha
  subst hr
  rw [StateT.run']
  generalize (do
    let a ← x
    expectFinish
    return a : Reader α) (.ofTokens g.source tokens) = result at hall
  cases result with
  | ok p =>
    refine ⟨fun a he => ?_, nofun⟩
    cases he
    exact hall.1
  | error e =>
    refine ⟨nofun, fun e' he => ?_⟩
    cases he
    exact hall

end Grammar

end FeatureFilter
