import FeatureFilter.Text.Ranges
import FeatureFilter.Token

/-!
# Splitting a text into tokens

`scan` goes through a text from left to right. Blanks are passed over, and at every other character
the longest lexeme that starts there is taken. It stops at the first character that starts no
lexeme, and at a quote that is never closed.
-/

namespace FeatureFilter

inductive LexProblem where
  | illegalCharacter (c : Char)
  | unterminatedString
  | unterminatedIdentifier
  | unexpectedEnd
  deriving DecidableEq, Repr

def LexProblem.message : LexProblem → String
  | illegalCharacter c => "illegal character '" ++ toString c ++ "'"
  | unterminatedString => "unterminated string literal"
  | unterminatedIdentifier => "unterminated quoted identifier"
  | unexpectedEnd => "unexpected end of input"

/-- A problem and where it was met. -/
structure LexError where
  problem : LexProblem
  position : Position
  deriving DecidableEq, Repr

def LexError.span (e : LexError) : Span :=
  ⟨e.position.offset, e.position.offset + 1, e.position.line, e.position.column⟩

/-! ## Numbers -/

def splitSign : List Char → List Char × List Char
  | '+' :: cs => (['+'], cs)
  | '-' :: cs => (['-'], cs)
  | cs => ([], cs)

/-- An exponent at the front: its letter, an optional sign and at least one digit. Without a digit
there is none. -/
def splitExponent : List Char → List Char × List Char
  | [] => ([], [])
  | c :: cs =>
    let (sign, body) := splitSign cs
    let ds := body.takeWhile Char.isDigit
    if (c = 'e' || c = 'E') && !ds.isEmpty then
      (c :: (sign ++ ds), body.dropWhile Char.isDigit)
    else ([], c :: cs)

/-- A number at the front: digits with a point among, before or behind them, and an exponent. -/
def splitNumber? (cs : List Char) : Option (List Char × List Char) :=
  let whole := cs.takeWhile Char.isDigit
  match cs.dropWhile Char.isDigit with
  | '.' :: rest =>
    let fraction := rest.takeWhile Char.isDigit
    if whole.isEmpty && fraction.isEmpty then none
    else
      let (exponent, rest) := splitExponent (rest.dropWhile Char.isDigit)
      some (whole ++ '.' :: (fraction ++ exponent), rest)
  | rest =>
    if whole.isEmpty then none
    else
      let (exponent, rest) := splitExponent rest
      some (whole ++ exponent, rest)

/-! ## Words and marks -/

/-- What a word is, given what follows it. A reserved word in front of a point is an ordinary
word. -/
def wordKind (word rest : List Char) : TokenKind :=
  match Keyword.ofWord? (String.ofList word) with
  | some k => if rest.head? = some '.' then .identifier (String.ofList word) else .keyword k
  | none => .identifier (String.ofList word)

/-- The spellings of marks. A spelling stands before those that it starts with. -/
def markSpellings : List (List Char × Mark) :=
  [(['<', '='], .lessOrEqual), (['>', '='], .greaterOrEqual), (['<', '>'], .notEqual),
    (['<'], .less), (['>'], .greater), (['='], .equal), (['!', '='], .bang), (['!'], .bang),
    (['+'], .plus), (['-'], .minus), (['*'], .star), (['/'], .slash), (['('], .leftParen),
    ([')'], .rightParen), (['['], .leftBracket), ([']'], .rightBracket), ([','], .comma),
    ([';'], .semicolon)]

def splitMark? (cs : List Char) : Option (Mark × List Char) :=
  (markSpellings.find? fun (spelling, _) => spelling.isPrefixOf cs).map fun (spelling, m) =>
    (m, spelling)

/-! ## Lexemes -/

/-- The lexeme at the front of a text: its kind, its characters and what follows it. -/
def splitLexeme (cs : List Char) : Except LexProblem (TokenKind × List Char × List Char) :=
  match splitNumber? cs with
  | some (numeral, rest) => .ok (.number (String.ofList numeral), numeral, rest)
  | none =>
    match cs with
    | [] => .error .unexpectedEnd
    | c :: rest =>
      if c = '\'' then
        match Quoted.read c rest with
        | some (content, rest) =>
          .ok (.string (String.ofList content), Quoted.write c content, rest)
        | none => .error .unterminatedString
      else if c = '"' then
        match Quoted.read c rest with
        | some (name, rest) =>
          .ok (.quotedIdentifier (String.ofList name), Quoted.write c name, rest)
        | none => .error .unterminatedIdentifier
      else if startsWord c then
        let (word, rest) := splitWords rest
        .ok (wordKind (c :: word) rest, c :: word, rest)
      else
        match splitMark? cs with
        | some (m, spelling) => .ok (.mark m, spelling, cs.drop spelling.length)
        | none => .error (.illegalCharacter c)

theorem splitSign_append (cs : List Char) : (splitSign cs).1 ++ (splitSign cs).2 = cs := by
  unfold splitSign
  split <;> rfl

theorem splitExponent_append (cs : List Char) :
    (splitExponent cs).1 ++ (splitExponent cs).2 = cs := by
  cases cs with
  | nil => rfl
  | cons c cs =>
    simp only [splitExponent]
    split
    · have hs := splitSign_append cs
      simp only [List.cons_append, List.append_assoc, List.takeWhile_append_dropWhile, hs]
    · rfl

theorem eq_append_of_splitNumber? {cs w rest : List Char} (h : splitNumber? cs = some (w, rest)) :
    cs = w ++ rest ∧ w ≠ [] := by
  have hcs : cs.takeWhile Char.isDigit ++ cs.dropWhile Char.isDigit = cs :=
    List.takeWhile_append_dropWhile
  unfold splitNumber? at h
  simp only at h
  split at h
  · rename_i r hr
    split at h
    · simp at h
    · simp only [Option.some.injEq, Prod.mk.injEq] at h
      obtain ⟨rfl, rfl⟩ := h
      refine ⟨?_, by simp⟩
      have hx := splitExponent_append (r.dropWhile Char.isDigit)
      have hd : r.takeWhile Char.isDigit ++ r.dropWhile Char.isDigit = r :=
        List.takeWhile_append_dropWhile
      simp only [List.append_assoc, List.cons_append]
      rw [hx, hd, ← hr, hcs]
  · split at h
    · simp at h
    · rename_i hne
      simp only [Option.some.injEq, Prod.mk.injEq] at h
      obtain ⟨rfl, rfl⟩ := h
      have hx := splitExponent_append (cs.dropWhile Char.isDigit)
      refine ⟨?_, ?_⟩
      · rw [List.append_assoc, hx, hcs]
      · simp only [List.isEmpty_iff] at hne
        simp [hne]

theorem ne_nil_of_mem_markSpellings : ∀ p ∈ markSpellings, p.1 ≠ [] := by decide

theorem eq_append_of_splitMark? {cs w : List Char} {m : Mark} (h : splitMark? cs = some (m, w)) :
    cs = w ++ cs.drop w.length ∧ w ≠ [] := by
  obtain ⟨⟨v, n⟩, hf, he⟩ := Option.map_eq_some_iff.1 h
  simp only [Prod.mk.injEq] at he
  obtain ⟨rfl, rfl⟩ := he
  have hp : v.isPrefixOf cs = true := by simpa using List.find?_some hf
  obtain ⟨t, rfl⟩ := List.isPrefixOf_iff_prefix.1 hp
  exact ⟨by simp, ne_nil_of_mem_markSpellings _ (List.mem_of_find?_eq_some hf)⟩

/-- A lexeme has at least one character, and is followed by the rest of the text. -/
theorem eq_append_of_splitLexeme {cs w rest : List Char} {k : TokenKind}
    (h : splitLexeme cs = .ok (k, w, rest)) : cs = w ++ rest ∧ w ≠ [] := by
  unfold splitLexeme at h
  split at h
  · rename_i numeral r hn
    simp only [Except.ok.injEq, Prod.mk.injEq] at h
    obtain ⟨-, rfl, rfl⟩ := h
    exact eq_append_of_splitNumber? hn
  · split at h
    · simp at h
    · rename_i c r
      split at h
      · split at h
        · rename_i hq
          simp only [Except.ok.injEq, Prod.mk.injEq] at h
          obtain ⟨-, rfl, rfl⟩ := h
          simp [Quoted.write, Quoted.eq_of_read hq]
        · simp at h
      · split at h
        · split at h
          · rename_i hq
            simp only [Except.ok.injEq, Prod.mk.injEq] at h
            obtain ⟨-, rfl, rfl⟩ := h
            simp [Quoted.write, Quoted.eq_of_read hq]
          · simp at h
        · split at h
          · simp only [Except.ok.injEq, Prod.mk.injEq] at h
            obtain ⟨-, rfl, rfl⟩ := h
            simp [splitWords_append]
          · split at h
            · rename_i hm
              simp only [Except.ok.injEq, Prod.mk.injEq] at h
              obtain ⟨-, rfl, rfl⟩ := h
              exact eq_append_of_splitMark? hm
            · simp at h

/-! ## Scanning -/

/-- What came of splitting a text: the tokens found, and the error that stopped it if any. -/
structure Scan where
  tokens : List Token
  error : Option LexError

/-- Splits the text that starts at a position. -/
def scanFrom (p : Position) (cs : List Char) : Scan :=
  match cs with
  | [] => ⟨[.finishAt p], none⟩
  | c :: r =>
    if isBlank c then scanFrom (p.advance c) r
    else
      match _h : splitLexeme (c :: r) with
      | .error problem => ⟨[], some ⟨problem, p⟩⟩
      | .ok (kind, w, rest) =>
        let later := scanFrom (p.after w) rest
        { later with tokens := ⟨kind, String.ofList w, .between p (p.after w)⟩ :: later.tokens }
termination_by cs.length
decreasing_by
  · simp
  · obtain ⟨he, hw⟩ := eq_append_of_splitLexeme _h
    rw [he, List.length_append]
    have := List.length_pos_iff.2 hw
    omega

def scan (text : String) : Scan := scanFrom .start text.toList

/-- The tokens of a text, the last of them its end. -/
def tokenize (text : String) : Except LexError (List Token) :=
  match scan text with
  | ⟨tokens, none⟩ => .ok tokens
  | ⟨_, some e⟩ => .error e

/-- The tokens that a failed attempt leaves behind: those before a quote that is never closed. -/
def Scan.kept (s : Scan) : List Token :=
  match s.error with
  | some ⟨.unterminatedString, _⟩ | some ⟨.unterminatedIdentifier, _⟩ => s.tokens
  | _ => []

end FeatureFilter
