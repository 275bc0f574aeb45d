import FeatureFilter.Proofs.Token.Cutting

/-!
# Tokens and their places

Nothing of a text is lost when it is split into tokens, and every token says exactly where it
stands: `tokenize_exact`. A text that cannot be split is one that could be up to the place of the
error.
-/

namespace FeatureFilter

/-! ## Places -/

/-- The place behind the first characters of a text. The line is told by the line feeds among them,
the column by the characters that follow the last of these. -/
def Position.behind (cs : List Char) : Position where
  offset := Wkt.byteLength cs
  line := 1 + cs.count '\n'
  column := 1 + (cs.reverse.takeWhile (· != '\n')).length

theorem Position.behind_concat (cs : List Char) (c : Char) :
    behind (cs ++ [c]) = (behind cs).advance c := by
  by_cases hc : c = '\n'
  · subst hc
    simp [behind, advance, byteLength_append, Wkt.byteLength]
    omega
  · simp [behind, advance, byteLength_append, Wkt.byteLength, hc]
    omega

theorem Position.behind_append (a b : List Char) : behind (a ++ b) = (behind a).after b := by
  induction b generalizing a with
  | nil => rw [List.append_nil, after_nil]
  | cons c b ih =>
    rw [after_cons, ← behind_concat, ← ih, List.append_assoc, List.singleton_append]

theorem byteLength_pos {cs : List Char} (h : cs ≠ []) : 0 < Wkt.byteLength cs := by
  cases cs with
  | nil => exact absurd rfl h
  | cons c cs =>
    have := c.utf8Size_pos
    rw [Wkt.byteLength]
    omega

/-- A character of two texts is one of the first or one of the second. -/
theorem eq_append_or {w cs before behind : List Char} {c : Char}
    (h : w ++ cs = before ++ c :: behind) :
    (∃ rest, before = w ++ rest ∧ cs = rest ++ c :: behind) ∨
    ∃ inner, w = before ++ c :: inner := by
  obtain ⟨rest, hb, hcs⟩ | ⟨inner, hw, hinner⟩ := List.append_eq_append_iff.1 h
  · exact .inl ⟨rest, hb, hcs⟩
  · cases inner with
    | nil => exact .inl ⟨[], by rw [hw, List.append_nil, List.append_nil], hinner.symm⟩
    | cons d inner =>
      obtain ⟨rfl, -⟩ := List.cons.inj hinner
      exact .inr ⟨inner, hw⟩

/-- The token stands where its span says, and its lexeme is the text there. -/
structure Token.Exact (source : List Char) (t : Token) : Prop where
  nonempty : t.span.start < t.span.stop
  lexeme : byteSlice source t.span.start t.span.stop = some t.lexeme.toList
  place : ∃ before behind, source = before ++ behind ∧
    (⟨t.span.start, t.span.line, t.span.column⟩ : Position) = .behind before

/-- The tokens of a text, one behind the other, with nothing but blanks outside them. -/
structure Covers (source : List Char) (ts : List Token) : Prop where
  noFinish : ∀ t ∈ ts, t.kind ≠ .finish
  exact : ∀ t ∈ ts, t.Exact source
  ordered : ts.Pairwise fun t u => t.span.stop ≤ u.span.start
  blank : ∀ before c behind, source = before ++ c :: behind →
    ∀ i, Wkt.byteLength before ≤ i → i < Wkt.byteLength before + c.utf8Size →
      (∀ t ∈ ts, i < t.span.start ∨ t.span.stop ≤ i) → c = ' ' ∨ c = '\t' ∨ c = '\r' ∨ c = '\n'

/-- The problem is one that is met at the character. -/
def LexProblem.MetAt : LexProblem → Char → Prop
  | illegalCharacter d, c => c = d
  | unterminatedString, c => c = '\''
  | unterminatedIdentifier, c => c = '"'
  | unexpectedEnd, _ => False

/-- The error is about a character of the text, and the text up to that character can be split. -/
def LexError.Meets (e : LexError) (source : List Char) : Prop :=
  ∃ before c behind, source = before ++ c :: behind ∧ e.position = .behind before ∧
    e.problem.MetAt c ∧ ∃ tokens, tokenize (String.ofList before) = .ok tokens

/-! ## Tokens -/

namespace Scans

variable {p q : Position} {cs : List Char} {ts : List Token}

theorem after_eq (h : Scans p cs ts q) : q = p.after cs := by
  induction h with
  | nil => rfl
  | blank _ _ ih => exact ih
  | lexeme _ _ ih => rw [ih, Position.after_append]

theorem bounds (h : Scans p cs ts q) :
    ∀ t ∈ ts, p.offset ≤ t.span.start ∧ t.span.stop ≤ q.offset := by
  induction h with
  | nil => exact fun t ht => absurd ht List.not_mem_nil
  | @blank p q c cs ts _ _ ih =>
    intro t ht
    obtain ⟨h1, h2⟩ := ih t ht
    rw [Position.offset_advance] at h1
    exact ⟨by omega, h2⟩
  | @lexeme p q kind w cs ts _ hs ih =>
    have hp := Position.offset_after p w
    refine List.forall_mem_cons.2 ⟨⟨Nat.le_refl _, ?_⟩, fun t ht => ?_⟩
    · rw [hs.offset_eq]
      exact Nat.le_add_right _ _
    · obtain ⟨h1, h2⟩ := ih t ht
      exact ⟨by omega, h2⟩

theorem ordered (h : Scans p cs ts q) : ts.Pairwise fun t u => t.span.stop ≤ u.span.start := by
  induction h with
  | nil => exact .nil
  | blank _ _ ih => exact ih
  | lexeme _ hs ih => exact .cons (fun t ht => (hs.bounds t ht).1) ih

theorem exact {before : List Char} (h : Scans (.behind before) cs ts q) :
    ∀ t ∈ ts, t.Exact (before ++ cs) := by
  generalize hp : Position.behind before = p at h
  induction h generalizing before with
  | nil => exact fun t ht => absurd ht List.not_mem_nil
  | @blank p q c cs ts _ _ ih =>
    have := @ih (before ++ [c]) (by rw [Position.behind_concat, hp])
    rwa [List.append_assoc, List.singleton_append] at this
  | @lexeme p q kind w cs ts hw hs ih =>
    subst hp
    have hoffset : ((Position.behind before).after w).offset =
      Wkt.byteLength before + Wkt.byteLength w := Position.offset_after _ w
    refine List.forall_mem_cons.2 ⟨⟨?_, ?_, before, w ++ cs, rfl, rfl⟩, ?_⟩
    · show (Position.behind before).offset < ((Position.behind before).after w).offset
      have hpos := byteLength_pos (eq_append_of_splitLexeme hw).2
      rw [hoffset]
      exact Nat.lt_add_of_pos_right hpos
    · show byteSlice _ (Wkt.byteLength before) ((Position.behind before).after w).offset = _
      rw [hoffset, byteSlice_append, String.toList_ofList]
    · have := @ih (before ++ w) (Position.behind_append before w)
      rwa [List.append_assoc] at this

theorem blank_or_inside (h : Scans p cs ts q) {before behind : List Char} {c : Char}
    (he : cs = before ++ c :: behind) :
    isBlank c = true ∨ ∃ t ∈ ts, t.span.start ≤ p.offset + Wkt.byteLength before ∧
      p.offset + Wkt.byteLength before + c.utf8Size ≤ t.span.stop := by
  induction h generalizing before with
  | nil => simp at he
  | @blank p q d cs ts hd _ ih =>
    have hp := Position.offset_advance p d
    cases before with
    | nil =>
      cases he
      exact .inl hd
    | cons e before =>
      obtain ⟨rfl, hcs⟩ := List.cons.inj he
      obtain hc | ⟨t, ht, h1, h2⟩ := ih hcs
      · exact .inl hc
      · refine .inr ⟨t, ht, ?_⟩
        rw [Wkt.byteLength]
        omega
  | @lexeme p q kind w cs ts hw _ ih =>
    have hp := Position.offset_after p w
    obtain ⟨rest, rfl, hcs⟩ | ⟨inner, rfl⟩ := eq_append_or he
    · obtain hc | ⟨t, ht, h1, h2⟩ := ih hcs
      · exact .inl hc
      · refine .inr ⟨t, List.mem_cons_of_mem _ ht, ?_⟩
        rw [byteLength_append]
        omega
    · refine .inr ⟨_, List.mem_cons_self .., Nat.le_add_right _ _, ?_⟩
      show _ ≤ (p.after _).offset
      rw [hp, byteLength_append, Wkt.byteLength]
      omega

theorem covers (h : Scans .start cs ts q) : Covers cs ts where
  noFinish := h.ne_finish
  exact := (show Scans (.behind []) cs ts q from h).exact
  ordered := h.ordered
  blank before c behind he i hlow hhigh hout := by
    obtain hc | ⟨t, ht, h1, h2⟩ := h.blank_or_inside he
    · simpa [isBlank, or_assoc] using hc
    · have hstart : Position.start.offset = 0 := rfl
      rcases hout t ht with hi | hi <;> omega

end Scans

/-! ## Errors -/

theorem metAt_of_splitLexeme {c : Char} {cs : List Char} {problem : LexProblem}
    (h : splitLexeme (c :: cs) = .error problem) : problem.MetAt c := by
  unfold splitLexeme at h
  split at h
  · cases h
  simp only at h
  split at h
  · rename_i hc
    split at h <;> cases h
    exact hc
  split at h
  · rename_i hc
    split at h <;> cases h
    exact hc
  split at h
  · cases h
  split at h <;> cases h
  rfl

/-- An error stands behind characters that are split, and is about the one that follows. -/
theorem exists_of_scanFrom {p : Position} {cs : List Char} {e : LexError}
    (h : (scanFrom p cs).error = some e) :
    ∃ before c behind ts, cs = before ++ c :: behind ∧ e.problem.MetAt c ∧
      Scans p before ts e.position := by
  induction p, cs using scanFrom.induct with
  | case1 p =>
    rw [scanFrom] at h
    cases h
  | case2 p c r hb ih =>
    rw [scanFrom_blank hb] at h
    obtain ⟨before, d, behind, ts, rfl, hd, hs⟩ := ih h
    exact ⟨c :: before, d, behind, ts, rfl, hd, .blank hb hs⟩
  | case3 p c r hb problem hs =>
    rw [scanFrom, if_neg hb] at h
    split at h
    · rename_i hs'
      rw [hs] at hs'
      cases hs'
      cases h
      exact ⟨[], c, r, [], rfl, metAt_of_splitLexeme hs, .nil⟩
    · rename_i hs'
      rw [hs] at hs'
      cases hs'
  | case4 p c r hb kind w rest hs ih =>
    rw [scanFrom_lexeme hs] at h
    obtain ⟨before, d, behind, ts, rfl, hd, hts⟩ := ih h
    have he := (eq_append_of_splitLexeme hs).1
    rw [he, ← List.append_assoc] at hs
    obtain ⟨kind', hs'⟩ := splitLexeme_cut hs
    exact ⟨w ++ before, d, behind, _, by rw [he, List.append_assoc], hd, .lexeme hs' hts⟩

theorem scan_of_tokenize {text : String} {e : LexError} (h : tokenize text = .error e) :
    (scan text).error = some e := by
  rw [tokenize] at h
  split at h
  · cases h
  · rename_i hs
    cases h
    rw [hs]

/-- The tokens of a text that can be split cover it, and its end closes their list. A text that
cannot be split meets a character that is no part of it, or a quote that is never closed. -/
theorem tokenize_exact (text : String) :
    match tokenize text with
    | .ok tokens => ∃ ts finish, tokens = ts ++ [finish] ∧ Covers text.toList ts ∧
        finish.kind = .finish ∧
        finish.span = .between (.behind text.toList) (.behind text.toList)
    | .error e => e.Meets text.toList := by
  have hstart (cs : List Char) : Position.start.after cs = .behind cs :=
    (Position.behind_append [] cs).symm
  cases htokens : tokenize text with
  | ok tokens =>
    obtain ⟨ts, q, rfl, hs⟩ := tokenize_eq_ok.1 htokens
    refine ⟨ts, _, rfl, hs.covers, rfl, ?_⟩
    rw [hs.after_eq, hstart]
    rfl
  | error e =>
    obtain ⟨before, c, behind, ts, he, hc, hs⟩ := exists_of_scanFrom (scan_of_tokenize htokens)
    refine ⟨before, c, behind, he, ?_, hc, _, tokenize_eq_ok.2 ⟨ts, e.position, rfl, ?_⟩⟩
    · rw [hs.after_eq, hstart]
    · rwa [String.toList_ofList]

end FeatureFilter
