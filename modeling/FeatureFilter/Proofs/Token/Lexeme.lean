import FeatureFilter.Token.Lexer

/-!
# Lexemes

What stands at the front of a text is a lexeme by one of five rules, and these are the ones the
lexer goes by (`splitLexeme_eq_ok`).
-/

namespace FeatureFilter

/-! ## First characters -/

theorem isDigit_of_startsWord {c : Char} (h : startsWord c = true) :
    c.isDigit = false ∧ c ≠ '.' ∧ c ≠ '\'' ∧ c ≠ '"' := by
  by_cases hc : c.toNat < 0x80
  · simp only [startsWord, isWordLetter_of_ascii hc, Bool.or_eq_true, decide_eq_true_eq] at h
    rcases h with (h | rfl) | rfl
    · refine ⟨?_, ?_, ?_, ?_⟩
      · simp only [Char.isDigit, Bool.and_eq_false_iff, decide_eq_false_iff_not]
        right
        intro h9
        have h9' : c.toNat ≤ 57 := h9
        rcases Bool.or_eq_true_iff.1 h with h | h
        · have hc : 65 ≤ c.val ∧ c.val ≤ 90 := of_decide_eq_true h
          have : 65 ≤ c.toNat := hc.1
          omega
        · have : 97 ≤ c.toNat := of_decide_eq_true (Bool.and_eq_true_iff.1 h).1
          omega
      · rintro rfl
        exact absurd h (by decide)
      · rintro rfl
        exact absurd h (by decide)
      · rintro rfl
        exact absurd h (by decide)
    · decide
    · decide
  · refine ⟨?_, ?_, ?_, ?_⟩
    · simp only [Char.isDigit, Bool.and_eq_false_iff, decide_eq_false_iff_not]
      right
      intro h9
      have h9' : c.toNat ≤ 57 := h9
      omega
    · rintro rfl
      exact hc (by decide)
    · rintro rfl
      exact hc (by decide)
    · rintro rfl
      exact hc (by decide)

theorem splitNumber?_none {c : Char} {cs : List Char} (hd : c.isDigit = false) (hp : c ≠ '.') :
    splitNumber? (c :: cs) = none := by
  unfold splitNumber?
  simp only [List.takeWhile_cons, List.dropWhile_cons, hd]
  split
  · rename_i heq
    exact absurd (List.cons.inj heq).1 hp
  · rfl

theorem isDigit_of_splitNumber?_none {c : Char} {cs : List Char}
    (h : splitNumber? (c :: cs) = none) : c.isDigit = false := by
  refine Bool.eq_false_iff.2 fun hd => ?_
  unfold splitNumber? at h
  simp only [List.takeWhile_cons, hd, if_true, List.isEmpty_cons, Bool.false_and,
    Bool.false_eq_true, if_false] at h
  split at h <;> cases h

/-! ## Kinds of lexemes -/

/-- The lexeme at the front of a text with its kind, and what is left of the text. -/
inductive LexemeAt : List Char → TokenKind → List Char → List Char → Prop where
  | number {cs w rest : List Char} (h : splitNumber? cs = some (w, rest)) :
    LexemeAt cs (.number (String.ofList w)) w rest
  | string {cs content rest : List Char} (h : Quoted.read '\'' cs = some (content, rest)) :
    LexemeAt ('\'' :: cs) (.string (String.ofList content)) (Quoted.write '\'' content) rest
  | quoted {cs name rest : List Char} (h : Quoted.read '"' cs = some (name, rest)) :
    LexemeAt ('"' :: cs) (.quotedIdentifier (String.ofList name)) (Quoted.write '"' name) rest
  | word {c : Char} {cs w rest : List Char} (hc : startsWord c = true)
    (h : splitWords cs = (w, rest)) : LexemeAt (c :: cs) (wordKind (c :: w) rest) (c :: w) rest
  | mark {c : Char} {cs w rest : List Char} {m : Mark} (hn : splitNumber? (c :: cs) = none)
    (hq : c ≠ '\'') (hq' : c ≠ '"') (hc : startsWord c = false)
    (h : splitMark? (c :: cs) = some (m, w)) (hrest : c :: cs = w ++ rest) :
    LexemeAt (c :: cs) (.mark m) w rest

variable {cs w rest : List Char} {kind : TokenKind}

theorem LexemeAt.of_splitLexeme (h : splitLexeme cs = .ok (kind, w, rest)) :
    LexemeAt cs kind w rest := by
  unfold splitLexeme at h
  split at h
  · rename_i hn
    cases h
    exact .number hn
  rename_i hn
  split at h
  · cases h
  rename_i c r
  split at h
  · rename_i hc
    subst hc
    split at h <;> cases h
    exact .string ‹_›
  rename_i hq
  split at h
  · rename_i hc
    subst hc
    split at h <;> cases h
    exact .quoted ‹_›
  rename_i hq'
  split at h
  · rename_i hc
    cases h
    exact .word hc rfl
  rename_i hc
  split at h <;> cases h
  rename_i hm
  exact .mark hn hq hq' (Bool.eq_false_iff.2 hc) hm (eq_append_of_splitMark? hm).1

/-- What the lexer takes off the front of a text is a lexeme by one of the rules. -/
theorem splitLexeme_eq_ok : splitLexeme cs = .ok (kind, w, rest) ↔ LexemeAt cs kind w rest := by
  refine ⟨.of_splitLexeme, fun h => ?_⟩
  cases h with
  | number h => simp only [splitLexeme, h]
  | @string cs _ _ h =>
    have hn : splitNumber? ('\'' :: cs) = none := splitNumber?_none (by decide) (by decide)
    simp only [splitLexeme, hn, if_true, h]
  | @quoted cs _ _ h =>
    have hn : splitNumber? ('"' :: cs) = none := splitNumber?_none (by decide) (by decide)
    have hq : ('"' : Char) ≠ '\'' := by decide
    simp only [splitLexeme, hn, if_neg hq, if_true, h]
  | @word c cs w rest hc h =>
    obtain ⟨hd, hp, hq, hq'⟩ := isDigit_of_startsWord hc
    simp only [splitLexeme, splitNumber?_none hd hp, hq, hq', hc, if_false, if_true, h]
  | mark hn hq hq' hc h hrest =>
    simp only [splitLexeme, hn, if_neg hq, if_neg hq', hc, Bool.false_eq_true, if_false, h]
    rw [hrest, List.drop_left]

theorem wordKind_cases {P : TokenKind → Prop} (hword : ∀ s, P (.identifier s))
    (hkeyword : ∀ k, P (.keyword k)) (w rest : List Char) : P (wordKind w rest) := by
  unfold wordKind
  split
  · split
    · exact hword _
    · exact hkeyword _
  · exact hword _

theorem kind_of_splitLexeme (h : splitLexeme cs = .ok (kind, w, rest)) : kind ≠ .finish := by
  cases LexemeAt.of_splitLexeme h with
  | word => exact wordKind_cases (P := (· ≠ .finish)) (by simp) (by simp) _ _
  | _ => simp

theorem isBlank_of_splitLexeme {c : Char} (h : splitLexeme (c :: cs) = .ok (kind, w, rest)) :
    isBlank c = false := by
  refine Bool.eq_false_iff.2 fun hb => ?_
  simp only [isBlank, Bool.or_eq_true, decide_eq_true_eq] at hb
  rcases hb with ((rfl | rfl) | rfl) | rfl <;> cases h

end FeatureFilter
