import FeatureFilter.Proofs.Number.Text
import FeatureFilter.Proofs.Token.Lexeme

/-!
# Pieces of text

A written text is a list of pieces: blanks and lexemes, each of which the lexer takes off the front
as one token. `Lexable` says so for a whole list, and then the tokens of the text are those of its
pieces (`tokenize_charsOf`). Whether a lexeme ends where its piece ends depends on what follows; all
texts are written so that a blank, a comma or a parenthesis does.
-/

namespace FeatureFilter

/-- A part of a text: a blank, or the characters of a token. -/
inductive Piece where
  | blank
  | lexeme (kind : TokenKind) (chars : List Char)
  deriving DecidableEq

namespace Piece

def chars : Piece → List Char
  | blank => [' ']
  | lexeme _ w => w

def mark (m : Mark) : Piece := lexeme (.mark m) m.text.toList

def keyword (k : Keyword) : Piece := lexeme (.keyword k) k.text.toList

def number (w : List Char) : Piece := lexeme (.number (String.ofList w)) w

def word (w : List Char) : Piece := lexeme (.identifier (String.ofList w)) w

def string (s : String) : Piece := lexeme (.string s) (Quoted.write '\'' s.toList)

def quoted (s : String) : Piece := lexeme (.quotedIdentifier s) (Quoted.write '"' s.toList)

end Piece

def charsOf (ps : List Piece) : List Char := ps.flatMap Piece.chars

@[simp] theorem charsOf_nil : charsOf [] = [] := rfl

theorem charsOf_cons (p : Piece) (ps : List Piece) :
    charsOf (p :: ps) = p.chars ++ charsOf ps := rfl

@[simp] theorem charsOf_append (a b : List Piece) : charsOf (a ++ b) = charsOf a ++ charsOf b := by
  simp [charsOf]

def joinedPieces (separator : List Piece) : List (List Piece) → List Piece
  | [] => []
  | [a] => a
  | a :: b :: rest => a ++ separator ++ joinedPieces separator (b :: rest)

def groupedPieces (ps : List Piece) : List Piece :=
  .mark .leftParen :: (ps ++ [.mark .rightParen])

theorem joinedPieces_cons (sep a : List Piece) (pss : List (List Piece)) :
    joinedPieces sep (a :: pss) = a ++ pss.flatMap (sep ++ ·) := by
  induction pss generalizing a with
  | nil => simp [joinedPieces]
  | cons b pss ih => simp [joinedPieces, ih]

def tokensAt (p : Position) : List Piece → List Token
  | [] => [.finishAt p]
  | .blank :: ps => tokensAt (p.advance ' ') ps
  | .lexeme kind w :: ps =>
    ⟨kind, String.ofList w, .between p (p.after w)⟩ :: tokensAt (p.after w) ps

/-- The lexer takes each lexeme whole. -/
def Lexable : List Piece → Prop
  | [] => True
  | .blank :: ps => Lexable ps
  | .lexeme kind w :: ps =>
    splitLexeme (w ++ charsOf ps) = .ok (kind, w, charsOf ps) ∧ Lexable ps

/-! ## Scanning -/

theorem scanFrom_blank {p : Position} {c : Char} {cs : List Char} (hc : isBlank c = true) :
    scanFrom p (c :: cs) = scanFrom (p.advance c) cs := by
  rw [scanFrom, if_pos hc]

theorem scanFrom_lexeme {p : Position} {kind : TokenKind} {cs w rest : List Char}
    (h : splitLexeme cs = .ok (kind, w, rest)) :
    scanFrom p cs = { scanFrom (p.after w) rest with
      tokens := ⟨kind, String.ofList w, .between p (p.after w)⟩ ::
        (scanFrom (p.after w) rest).tokens } := by
  cases cs with
  | nil => cases h
  | cons c cs =>
    rw [scanFrom, if_neg (by simp [isBlank_of_splitLexeme h])]
    split
    · rename_i heq
      rw [h] at heq
      cases heq
    · rename_i heq
      rw [h] at heq
      cases heq
      rfl

theorem scanFrom_charsOf {ps : List Piece} (h : Lexable ps) (p : Position) :
    scanFrom p (charsOf ps) = ⟨tokensAt p ps, none⟩ := by
  induction ps generalizing p with
  | nil => rw [charsOf_nil, scanFrom, tokensAt]
  | cons a ps ih =>
    cases a with
    | blank =>
      rw [charsOf_cons, Piece.chars, List.singleton_append, scanFrom_blank (by decide), tokensAt]
      exact ih h _
    | lexeme kind w =>
      obtain ⟨hl, hps⟩ := h
      rw [charsOf_cons, Piece.chars, scanFrom_lexeme hl, ih hps, tokensAt]

/-- The tokens of a written text are those of its pieces. -/
theorem tokenize_charsOf {ps : List Piece} (h : Lexable ps) :
    tokenize (String.ofList (charsOf ps)) = .ok (tokensAt .start ps) := by
  rw [tokenize, scan, String.toList_ofList, scanFrom_charsOf h]

/-! ## What ends a lexeme -/

/-- The text starts with a blank, a comma or a parenthesis, or is at its end. -/
def Stops (cs : List Char) : Prop :=
  ∀ c, cs.head? = some c → c = ' ' ∨ c = ',' ∨ c = '(' ∨ c = ')'

theorem stops_nil : Stops [] := by
  intro c hc
  cases hc

theorem stops_cons {c : Char} {cs : List Char} :
    Stops (c :: cs) ↔ c = ' ' ∨ c = ',' ∨ c = '(' ∨ c = ')' := by
  simp [Stops]

theorem Stops.endsNumeral {cs : List Char} (h : Stops cs) : EndsNumeral cs := by
  intro c hc
  rcases h c hc with rfl | rfl | rfl | rfl <;> decide

theorem Stops.noQuote {cs : List Char} {q : Char} (h : Stops cs) (hq : q = '\'' ∨ q = '"') :
    cs.head? ≠ some q := by
  intro hc
  rcases h q hc with hs | hs | hs | hs <;> rcases hq with hq | hq <;> rw [hq] at hs <;> cases hs

/-- The lexer takes the lexeme whole in front of anything. -/
def Solid (kind : TokenKind) (w : List Char) : Prop :=
  ∀ rest, splitLexeme (w ++ rest) = .ok (kind, w, rest)

/-- The lexer takes the lexeme whole in front of what ends a lexeme. -/
def Firm (kind : TokenKind) (w : List Char) : Prop :=
  ∀ rest, Stops rest → splitLexeme (w ++ rest) = .ok (kind, w, rest)

theorem Lexable.solid {kind : TokenKind} {w : List Char} {ps : List Piece} (h : Solid kind w)
    (hps : Lexable ps) : Lexable (.lexeme kind w :: ps) := ⟨h _, hps⟩

theorem Lexable.firm {kind : TokenKind} {w : List Char} {ps : List Piece} (h : Firm kind w)
    (hs : Stops (charsOf ps)) (hps : Lexable ps) : Lexable (.lexeme kind w :: ps) := ⟨h _ hs, hps⟩

/-! ## Lexemes -/

theorem solid_leftParen : Solid (.mark .leftParen) Mark.leftParen.text.toList := fun _ => rfl

theorem solid_rightParen : Solid (.mark .rightParen) Mark.rightParen.text.toList := fun _ => rfl

theorem solid_comma : Solid (.mark .comma) Mark.comma.text.toList := fun _ => rfl

theorem solid_minus : Solid (.mark .minus) Mark.minus.text.toList := fun _ => rfl

theorem firm_mark (m : Mark) : Firm (.mark m) m.text.toList := by
  intro rest h
  cases rest with
  | nil => cases m <;> rfl
  | cons c cs => rcases stops_cons.1 h with rfl | rfl | rfl | rfl <;> cases m <;> rfl

theorem firm_number (n : Numeral) : Firm (.number (String.ofList n.chars)) n.chars := by
  intro rest h
  exact splitLexeme_eq_ok.2 (.number (n.splitNumber?_chars h.endsNumeral))

/-! ## Words -/

/-- Whether a text is a single word, or words with points between them, that is not reserved. -/
def isIdentifier (w : List Char) : Bool :=
  match w with
  | [] => false
  | c :: cs =>
    startsWord c && (splitWords cs).2.isEmpty && (Keyword.ofWord? (String.ofList w)).isNone

theorem Stops.continues {c : Char} {cs : List Char} (h : Stops (c :: cs)) :
    continuesWord c = false ∧ c ≠ '.' := by
  rcases stops_cons.1 h with rfl | rfl | rfl | rfl <;> decide

/-- Words end in front of what ends a lexeme. -/
theorem splitWords_stops {w rest : List Char} (h : (splitWords w).2 = []) (hr : Stops rest) :
    splitWords (w ++ rest) = (w, rest) := by
  fun_induction splitWords w with
  | case1 =>
    cases rest with
    | nil => rfl
    | cons c cs =>
      obtain ⟨hc, hp⟩ := hr.continues
      rw [List.nil_append, splitWords.eq_def]
      cases cs with
      | nil => simp [hc]
      | cons d ds => simp [hc, hp]
  | case2 c cs hc word rest' he ih =>
    have := ih (by rw [he]; exact h)
    simp only [List.cons_append, splitWords.eq_def (c :: (cs ++ rest)), hc, if_true, this]
  | case3 c hc d ds hd word rest' he ih =>
    have := ih (by rw [he]; exact h)
    simp only [List.cons_append, splitWords.eq_def (c :: (d :: (ds ++ rest))), hc, hd, if_true,
      if_false, this, Bool.false_eq_true]
  | case4 c hc d ds hd => simp at h
  | case5 c hc => simp at h

/-- A word is taken whole, and is reserved or not. -/
theorem splitLexeme_word {c : Char} {cs rest : List Char} (hc : startsWord c = true)
    (hw : (splitWords cs).2 = []) (hr : Stops rest) :
    splitLexeme (c :: cs ++ rest) = .ok (wordKind (c :: cs) rest, c :: cs, rest) :=
  splitLexeme_eq_ok.2 (.word hc (splitWords_stops hw hr))

theorem wordKind_stops {w rest : List Char} (hr : Stops rest) :
    wordKind w rest = match Keyword.ofWord? (String.ofList w) with
      | some k => .keyword k
      | none => .identifier (String.ofList w) := by
  have hp : rest.head? ≠ some '.' := by
    intro h
    rcases hr '.' h with h | h | h | h <;> exact absurd h (by decide)
  unfold wordKind
  cases Keyword.ofWord? (String.ofList w) with
  | none => rfl
  | some k => simp only [if_neg hp]

theorem firm_word {w : List Char} (h : isIdentifier w = true) :
    Firm (.identifier (String.ofList w)) w := by
  intro rest hr
  match w with
  | c :: cs =>
    simp only [isIdentifier, Bool.and_eq_true, List.isEmpty_iff, Option.isNone_iff_eq_none] at h
    rw [splitLexeme_word h.1.1 h.1.2 hr, wordKind_stops hr, h.2]

theorem firm_keyword (k : Keyword) : Firm (.keyword k) k.text.toList := by
  intro rest hr
  have hk : Keyword.ofWord? k.text = some k := by cases k <;> decide +kernel
  obtain ⟨c, cs, he⟩ : ∃ c cs, k.text.toList = c :: cs :=
    List.exists_cons_of_ne_nil (by cases k <;> decide +kernel)
  have hc : startsWord c = true := by
    have : (k.text.toList.head?.all startsWord) = true := by cases k <;> decide +kernel
    simpa [he] using this
  have hcs : (splitWords cs).2 = [] := by
    have : (splitWords k.text.toList.tail).2 = [] := by cases k <;> decide +kernel
    simpa [he] using this
  have hkind := wordKind_stops (w := k.text.toList) hr
  rw [String.ofList_toList, hk] at hkind
  rw [he, splitLexeme_word hc hcs hr, ← he, hkind]

/-! ## Quoted text -/

theorem firm_string (s : String) : Firm (.string s) (Quoted.write '\'' s.toList) := by
  intro rest hr
  have hread : Quoted.read '\'' (Quoted.double '\'' s.toList ++ ['\''] ++ rest) =
      some (s.toList, rest) := by
    simpa using Quoted.read_double s.toList rest (hr.noQuote (.inl rfl))
  have h := splitLexeme_eq_ok.2 (.string hread)
  rw [String.ofList_toList] at h
  exact h

theorem firm_quoted (s : String) : Firm (.quotedIdentifier s) (Quoted.write '"' s.toList) := by
  intro rest hr
  have hread : Quoted.read '"' (Quoted.double '"' s.toList ++ ['"'] ++ rest) =
      some (s.toList, rest) := by
    simpa using Quoted.read_double s.toList rest (hr.noQuote (.inr rfl))
  have h := splitLexeme_eq_ok.2 (.quoted hread)
  rw [String.ofList_toList] at h
  exact h

end FeatureFilter
