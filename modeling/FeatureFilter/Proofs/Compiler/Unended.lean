import FeatureFilter.Proofs.Compiler.Places
import FeatureFilter.Proofs.Phrase.Unended

/-!
# Tokens without the end of their text

The tokens of a text end with the end of the text, at its line and column. The same tokens without
it are read to the same phrase, with the same spans, or to the same error; but an error at the end
of the text is reported on the first line, at a column that counts the bytes of the text
(`Grammar.read_dropLast`). That is the place of the end only if the text is a single line of
characters of one byte each.
-/

namespace FeatureFilter

/-! ## The place of the end -/

theorem length_le_byteLength (cs : List Char) : cs.length ≤ Wkt.byteLength cs := by
  induction cs with
  | nil => exact Nat.le_refl _
  | cons c cs ih =>
    have := c.utf8Size_pos
    rw [List.length_cons, Wkt.byteLength]
    omega

theorem byteLength_eq_length_iff {cs : List Char} :
    Wkt.byteLength cs = cs.length ↔ ∀ c ∈ cs, c.utf8Size = 1 := by
  induction cs with
  | nil => simp [Wkt.byteLength]
  | cons c cs ih =>
    have hle := length_le_byteLength cs
    have hpos := c.utf8Size_pos
    rw [List.forall_mem_cons, ← ih, Wkt.byteLength, List.length_cons]
    omega

/-- The place behind some characters is on the first line, at a column that counts their bytes, if
and only if none of them is a line feed or has more than one byte. -/
theorem Position.behind_flat_iff {cs : List Char} :
    (behind cs).line = 1 ∧ (behind cs).column = Wkt.byteLength cs + 1 ↔
      ∀ c ∈ cs, c ≠ '\n' ∧ c.utf8Size = 1 := by
  have hline : (behind cs).line = 1 ↔ ∀ c ∈ cs, c ≠ '\n' := by
    rw [behind, Nat.add_eq_left, List.count_eq_zero]
    exact ⟨fun h c hc he => h (he ▸ hc), fun h hmem => h _ hmem rfl⟩
  rw [hline, forall₂_and]
  refine and_congr_right fun hplain => ?_
  have hrun : cs.reverse.takeWhile (· != '\n') = cs.reverse :=
    List.takeWhile_eq_self_iff.2 fun c hc => by simpa using hplain c (List.mem_reverse.1 hc)
  rw [← byteLength_eq_length_iff, behind]
  dsimp only
  rw [hrun, List.length_reverse]
  omega

/-! ## The tokens -/

variable {α : Type} {g : Grammar} {tokens : List Token} {e : SyntaxError}

/-- The cursor in front of the tokens of a text, with and without the end. -/
theorem Cursor.unended_ofTokens {source : String} {ts : List Token}
    (hcovers : Covers source.toList ts) :
    (Cursor.ofTokens source (ts ++ [.finishAt (.behind source.toList)])).Unended source.utf8ByteSize
      ts.length (.ofTokens source ts) where
  ahead := by
    refine ⟨_, rfl, rfl, ?_⟩
    have hstart : (Position.behind source.toList).offset = source.utf8ByteSize :=
      byteLength_toList source
    simp [ofTokens, Token.finishAt, Token.flattenEnd, Span.flattenEnd, Span.between, hstart]
  lastStop := rfl
  finish := rfl
  inside t ht := by
    have hexact := hcovers.exact t ht
    have hstop := hexact.placed.stop.le
    rw [byteLength_toList] at hstop
    exact ⟨hcovers.noFinish t ht, Nat.lt_of_lt_of_le hexact.nonempty hstop⟩
  bound := Nat.le_refl _

/-- What is placed at the end of a text is at its line and column. -/
theorem Span.Placed.place_end {source : List Char} {s : Span} (h : s.Placed source)
    (hs : Wkt.byteLength source ≤ s.start) :
    s.line = (Position.behind source).line ∧ s.column = (Position.behind source).column := by
  obtain ⟨before, behind, rfl, hplace⟩ := h.start
  obtain ⟨hstart, hline, hcolumn⟩ := Position.mk.inj hplace
  obtain rfl : behind = [] := by
    by_contra hne
    have hpos := byteLength_pos hne
    rw [byteLength_append, hstart] at hs
    omega
  rw [List.append_nil]
  exact ⟨hline, hcolumn⟩

theorem SyntaxError.flattenEnd_eq_iff {source : String} (h : e.span.Placed source.toList) :
    e.flattenEnd source.utf8ByteSize = e ↔
      e.span.start < source.utf8ByteSize ∨ ∀ c ∈ source.toList, c ≠ '\n' ∧ c.utf8Size = 1 := by
  have hspan :
      e.flattenEnd source.utf8ByteSize = e ↔ e.span.flattenEnd source.utf8ByteSize = e.span :=
    ⟨fun he => congrArg SyntaxError.span he, fun he => by rw [flattenEnd, he]⟩
  rw [hspan, Span.flattenEnd_eq_iff]
  refine or_congr_right' fun hlt => ?_
  rw [← byteLength_toList] at hlt ⊢
  obtain ⟨hline, hcolumn⟩ := h.place_end (Nat.le_of_not_lt hlt)
  rw [hline, hcolumn, Position.behind_flat_iff]

def errorSpan? : Except SyntaxError α → Option Span
  | .ok _ => none
  | .error e => some e.span

theorem errorSpan?_eq_some {r : Except SyntaxError α} {s : Span} :
    errorSpan? r = some s ↔ ∃ e, r = .error e ∧ e.span = s := by
  cases r <;> simp [errorSpan?]

namespace Grammar

/-- Reading the tokens of a text without the last one, which is its end, gives the same phrase with
the same spans, or the same error: at the same bytes, with the same words and the same hint. Its
line and column are the same as well where the error is in front of the end. At the end they are
those of a text of as many bytes on a single line, each in a column of its own, and so they are the
same if and only if the text is one. -/
theorem read_dropLast (g : Grammar) {tokens : List Token} (h : tokenize g.source = .ok tokens) :
    tokens = tokens.dropLast ++ [.finishAt (.behind g.source.toList)] ∧
    g.condition tokens.dropLast =
      (g.condition tokens).mapError (·.flattenEnd g.source.utf8ByteSize) ∧
    g.operand tokens.dropLast = (g.operand tokens).mapError (·.flattenEnd g.source.utf8ByteSize) ∧
    ∀ e, g.condition tokens = .error e ∨ g.operand tokens = .error e →
      (e.flattenEnd g.source.utf8ByteSize = e ↔
        e.span.start < g.source.utf8ByteSize ∨
          ∀ c ∈ g.source.toList, c ≠ '\n' ∧ c.utf8Size = 1) := by
  obtain ⟨hplaced, hend⟩ := placed_of_tokenize h
  have herror : ∀ e, g.condition tokens = .error e ∨ g.operand tokens = .error e →
      e.span.Placed g.source.toList := by
    rintro e (he | he)
    · exact (placed_of_keeps (R := Span.Placed g.source.toList) (Condition.keeps_read g _) hplaced
        hend rfl).2 e he
    · exact (placed_of_keeps (R := Span.Placed g.source.toList) (Operand.keeps_read g _) hplaced
        hend rfl).2 e he
  obtain ⟨ts, q, rfl, hts⟩ := tokenize_eq_ok.1 h
  obtain rfl : q = .behind g.source.toList := hts.after_eq.trans (Position.behind_append [] _).symm
  have hunended := Cursor.unended_ofTokens hts.covers
  rw [List.dropLast_concat]
  exact ⟨rfl, (alike_whole (Condition.alike_read g _)).run' hunended,
    (alike_whole (Operand.alike_read g _)).run' hunended,
    fun e he => SyntaxError.flattenEnd_eq_iff (herror e he)⟩

/-- An error at the end of two lines, behind a character of two bytes. -/
theorem read_dropLast_lines : ∃ tokens e, tokenize "é\n=" = .ok tokens ∧
    (Compiler.standard.grammar "é\n=").condition tokens = .error e ∧ e.span = ⟨4, 4, 2, 2⟩ ∧
    (Compiler.standard.grammar "é\n=").condition tokens.dropLast = .error (e.flattenEnd 4) ∧
    (e.flattenEnd 4).span = ⟨4, 4, 1, 5⟩ ∧ e.flattenEnd 4 ≠ e := by
  obtain ⟨tokens, htokens⟩ := exists_ok (x := tokenize "é\n=") (by decide +kernel)
  have hspan : (tokenize "é\n=").toOption.bind (fun tokens =>
      errorSpan? ((Compiler.standard.grammar "é\n=").condition tokens)) = some ⟨4, 4, 2, 2⟩ := by
    decide +kernel
  rw [htokens] at hspan
  obtain ⟨e, he, hplace⟩ := errorSpan?_eq_some.1 hspan
  obtain ⟨-, hcondition, -, hsame⟩ := read_dropLast (Compiler.standard.grammar "é\n=") htokens
  rw [he] at hcondition
  refine ⟨tokens, e, htokens, he, hplace, hcondition, ?_, fun heq => ?_⟩
  · rw [SyntaxError.flattenEnd, hplace]
    rfl
  · rcases (hsame e (.inl he)).1 heq with hlt | hplain
    · rw [hplace] at hlt
      exact absurd hlt (by decide)
    · exact (hplain '\n' (by decide)).1 rfl

/-- Without the last token the end of two lines is reported on the first line, where there is no
such column. -/
theorem read_dropLast_misplaced : ∃ tokens e e', tokenize "a\n=" = .ok tokens ∧
    (Compiler.standard.grammar "a\n=").condition tokens = .error e ∧ e.span = ⟨3, 3, 2, 2⟩ ∧
    (Compiler.standard.grammar "a\n=").condition tokens.dropLast = .error e' ∧
    e'.span = ⟨3, 3, 1, 4⟩ ∧ e' ≠ e := by
  obtain ⟨tokens, htokens⟩ := exists_ok (x := tokenize "a\n=") (by decide +kernel)
  have hspan : (tokenize "a\n=").toOption.bind (fun tokens =>
      errorSpan? ((Compiler.standard.grammar "a\n=").condition tokens)) = some ⟨3, 3, 2, 2⟩ := by
    decide +kernel
  have hspan' : (tokenize "a\n=").toOption.bind (fun tokens =>
      errorSpan? ((Compiler.standard.grammar "a\n=").condition tokens.dropLast)) =
      some ⟨3, 3, 1, 4⟩ := by
    decide +kernel
  rw [htokens] at hspan hspan'
  obtain ⟨e, he, hplace⟩ := errorSpan?_eq_some.1 hspan
  obtain ⟨e', he', hplace'⟩ := errorSpan?_eq_some.1 hspan'
  refine ⟨tokens, e, e', htokens, he, hplace, he', hplace', ?_⟩
  rintro rfl
  rw [hplace] at hplace'
  cases hplace'

end Grammar

end FeatureFilter
