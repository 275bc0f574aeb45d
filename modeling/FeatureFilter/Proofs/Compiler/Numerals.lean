import FeatureFilter.Proofs.Number.Resolved
import FeatureFilter.Proofs.Phrase.Complaints
import FeatureFilter.Proofs.Syntax.Texts
import FeatureFilter.Proofs.Token.Numeral

/-!
# The numbers of a text

Every number token that a text is split into is a numeral, and resolves to the literal that the
numeral denotes. So the text of a number is never refused, wherever a number is taken from the
tokens of a text, and the opposite of a whole number that is taken there is a 64-bit number.
-/

namespace FeatureFilter

/-- The number tokens of a text are numerals. -/
theorem exists_numeral_of_tokenize {text : String} {tokens : List Token}
    (h : tokenize text = .ok tokens) :
    ∀ t ∈ tokens, ∀ w, t.kind = .number w →
      t.lexeme = w ∧ ∃ n : Numeral, w = String.ofList n.chars := by
  obtain ⟨ts, q, rfl, hts⟩ := tokenize_eq_ok.1 h
  intro t ht w hw
  rcases List.mem_append.1 ht with ht | ht
  · obtain ⟨hlexeme, n, hn⟩ := hts.numeral t ht w hw
    exact ⟨hlexeme, n, by rw [hn, String.ofList_toList]⟩
  · cases List.mem_singleton.1 ht
    cases hw

theorem resolves_of_tokenize {text : String} {tokens : List Token}
    (h : tokenize text = .ok tokens) : ∀ t ∈ tokens, t.Resolves := by
  intro t ht w hw
  obtain ⟨-, n, rfl⟩ := exists_numeral_of_tokenize h t ht w hw
  obtain ⟨l, hl, -⟩ := Literal.exists_readNumber n
  exact ⟨l, hl⟩

theorem Cursor.token_mem {s : Cursor} {w : String} (hs : s.finish.kind = .finish)
    (hk : s.kind 0 = .number w) : s.token 0 ∈ s.ahead := by
  obtain ⟨ahead, stop, finish⟩ := s
  cases ahead with
  | nil => cases hk.symm.trans hs
  | cons t ts => exact List.mem_cons_self ..

/-- Taking a number from the tokens of a text: the error is not about its text, and the opposite of
an integer is exact. -/
theorem outcome_readNumber {text : String} {tokens : List Token} {s : Cursor}
    (h : tokenize text = .ok tokens) (hs : ∀ t ∈ s.ahead, t ∈ tokens)
    (hfinish : s.finish.kind = .finish) :
    Outcome (fun l _ => ∀ v, l = .integer v → 0 ≤ v.toInt ∧ (-v).toInt = -v.toInt)
      (fun e => ∀ t reason, e ≠ Operand.literalError t "number" reason) (Operand.readNumber s) := by
  have hresolves : s.Resolves := ⟨fun t ht => resolves_of_tokenize h t (hs t ht), hfinish⟩
  have hspared := Operand.acceptsNumbers_number s hresolves
  cases hr : Operand.readNumber s with
  | error e =>
    rw [hr] at hspared
    exact SyntaxError.AcceptsNumbers.ne hspared
  | ok p =>
    obtain ⟨l, s'⟩ := p
    obtain ⟨w, hk, hl, -⟩ := Operand.readNumber_eq_ok.1 hr
    obtain ⟨-, n, rfl⟩ :=
      exists_numeral_of_tokenize h _ (hs _ (Cursor.token_mem hfinish hk)) w hk
    rintro v rfl
    exact Literal.toInt_neg_of_denotes ((Literal.readNumber_ok_iff n _).1 hl)

/-- Where reading the tokens of a text refuses no number, reading the text refuses none. -/
theorem Compiler.phrase_acceptsNumbers {α : Type}
    {read : Grammar → List Token → Except SyntaxError α} {c : Compiler} {text : String}
    {tokens : List Token} {e : SyntaxError} (h : tokenize text = .ok tokens)
    (hread : ∀ g e', read g tokens = .error e' → e'.AcceptsNumbers)
    (he : c.phrase read text = .error (.syntactic e)) : e.AcceptsNumbers := by
  rcases Compiler.phrase_eq_error.1 he with ⟨e', -, hlexical⟩ | ⟨ts, e', hts, hrefused, hsyntactic⟩
  · cases hlexical
  · cases h.symm.trans hts
    cases hsyntactic
    exact hread _ _ hrefused

/-- Every number token of a text is a numeral and resolves to the literal that the numeral denotes:
to the integer of its value if it is digits alone and has a place among the 64-bit numbers, and
otherwise to the nearest double, which is infinite from halfway between the greatest finite one and
the next power of two on. So wherever a number is taken from the tokens of the text it is not
refused and has an opposite, and no error of reading the text as a condition or an operand is about
the text of a number. -/
theorem number_tokens_resolve {text : String} {tokens : List Token}
    (h : tokenize text = .ok tokens) :
    (∀ t ∈ tokens, ∀ w, t.kind = .number w →
      t.lexeme = w ∧ (∃ l, Literal.readNumber w = .ok l) ∧
        ∃ n : Numeral, w = String.ofList n.chars ∧
          (∀ l, Literal.readNumber w = .ok l ↔ n.Denotes l) ∧
          ∀ x, Literal.readNumber w = .ok (.double x) →
            (x = .infinity false ↔ 2 ^ 1024 - 2 ^ 970 ≤ n.toRat)) ∧
    (∀ s : Cursor, s.ahead <:+ tokens → s.finish.kind = .finish →
      Outcome (fun l _ => ∀ v, l = .integer v → 0 ≤ v.toInt ∧ (-v).toInt = -v.toInt)
        (fun e => ∀ t reason, e ≠ Operand.literalError t "number" reason)
        (Operand.readNumber s)) ∧
    ∀ (c : Compiler) (e : SyntaxError),
      c.condition text = .error (.syntactic e) ∨ c.operand text = .error (.syntactic e) →
        ∀ t reason, e ≠ Operand.literalError t "number" reason := by
  refine ⟨fun t ht w hw => ?_, fun s hs hfinish => ?_, fun c e he => ?_⟩
  · obtain ⟨hlexeme, n, rfl⟩ := exists_numeral_of_tokenize h t ht w hw
    obtain ⟨l, hl, -⟩ := Literal.exists_readNumber n
    refine ⟨hlexeme, ⟨l, hl⟩, n, rfl, Literal.readNumber_ok_iff n, fun x hx => ?_⟩
    obtain ⟨-, hnearest, hsign⟩ := (Literal.readNumber_ok_iff n _).1 hx
    exact hnearest.eq_infinity_iff hsign
  · exact outcome_readNumber h (fun _ ht => hs.subset ht) hfinish
  · have hresolves := resolves_of_tokenize h
    refine SyntaxError.AcceptsNumbers.ne ?_
    rcases he with he | he
    · exact Compiler.phrase_acceptsNumbers h
        (fun _ _ => Grammar.condition_acceptsNumbers hresolves) he
    · exact Compiler.phrase_acceptsNumbers h
        (fun _ _ => Grammar.operand_acceptsNumbers hresolves) he

/-- Digits with zeros in front, an integer that does not fit, points in front, within and behind,
and a value beyond the doubles. -/
theorem number_tokens_resolve_spellings : ∃ tokens,
    tokenize "007 9223372036854775808 .5 2.5e-1 7. 1e999" = .ok tokens ∧
    tokens.map Token.kind = [.number "007", .number "9223372036854775808", .number ".5",
      .number "2.5e-1", .number "7.", .number "1e999", .finish] ∧
    ∀ t ∈ tokens, ∀ w, t.kind = .number w →
      t.lexeme = w ∧ (∃ l, Literal.readNumber w = .ok l) ∧
        ∃ n : Numeral, w = String.ofList n.chars ∧
          (∀ l, Literal.readNumber w = .ok l ↔ n.Denotes l) ∧
          ∀ x, Literal.readNumber w = .ok (.double x) →
            (x = .infinity false ↔ 2 ^ 1024 - 2 ^ 970 ≤ n.toRat) := by
  have hkinds : (tokenize "007 9223372036854775808 .5 2.5e-1 7. 1e999").toOption.map
      (·.map Token.kind) = some [.number "007", .number "9223372036854775808", .number ".5",
        .number "2.5e-1", .number "7.", .number "1e999", .finish] := by decide +kernel
  obtain ⟨tokens, h⟩ :=
    exists_ok (x := tokenize "007 9223372036854775808 .5 2.5e-1 7. 1e999") (by decide +kernel)
  rw [h] at hkinds
  exact ⟨tokens, h, Option.some.inj hkinds, (number_tokens_resolve h).1⟩

end FeatureFilter
