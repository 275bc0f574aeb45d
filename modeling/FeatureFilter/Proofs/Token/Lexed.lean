import FeatureFilter.Phrase.Literal
import FeatureFilter.Proofs.Number.Text
import FeatureFilter.Proofs.Token.Gluing
import Mathlib.Data.List.Chain

/-!
# Tokens as a text has them

Not every list of tokens comes from a text. In those that do, a word in front of a parenthesis is a
name, since a reserved word is an ordinary one in front of a point only; and numbers have no sign.
-/

namespace FeatureFilter

/-- The first token does not call a reserved word. -/
def Token.Names (t p : Token) : Prop :=
  ∀ w, t.kind = .identifier w → p.kind = .mark .leftParen → isIdentifier w.toList = true

def StartsNumeral (cs : List Char) : Prop := ∃ c r, cs = c :: r ∧ (c.isDigit = true ∨ c = '.')

/-- The token is no number with a sign. -/
def Token.Unsigned (t : Token) : Prop := ∀ w, t.kind = .number w → StartsNumeral w.toList

/-- Tokens as a text has them. -/
structure Lexed (ts : List Token) : Prop where
  names : List.IsChain Token.Names ts
  unsigned : ∀ t ∈ ts, t.Unsigned

namespace Lexed

variable {ts us : List Token} {t : Token}

theorem left (h : Lexed (ts ++ us)) : Lexed ts :=
  ⟨h.names.left_of_append, fun t ht => h.unsigned t (List.mem_append_left us ht)⟩

end Lexed

/-! ## Lexemes -/

section Lexemes

variable {cs w rest : List Char} {s : String}

theorem splitWords_fst (h : splitWords cs = (w, rest)) : (splitWords w).2 = [] := by
  rw [← show (splitWords cs).1 = w from congrArg Prod.fst h]
  clear h
  fun_induction splitWords cs with
  | case1 => rfl
  | case2 c cs hc word rest hs ih =>
    rw [hs] at ih
    rw [splitWords.eq_def]
    simpa [hc] using ih
  | case3 c hc d ds hd word rest hs ih =>
    rw [hs] at ih
    rw [splitWords.eq_def]
    simpa [hc, hd] using ih
  | case4 => rfl
  | case5 => rfl

/-- A word that is taken off the front is a name, unless a point follows it. -/
theorem isIdentifier_of_splitLexeme (h : splitLexeme cs = .ok (.identifier s, w, rest)) :
    isIdentifier s.toList = true ∨ rest.head? = some '.' := by
  generalize hk : TokenKind.identifier s = kind at h
  cases LexemeAt.of_splitLexeme h with
  | @word c r w rest hc hw =>
    unfold wordKind at hk
    split at hk
    · split at hk
      · exact .inr ‹_›
      · cases hk
    · rename_i hnone
      cases hk
      left
      rw [String.toList_ofList, isIdentifier, hc, splitWords_fst hw, hnone]
      rfl
  | _ => cases hk

theorem ne_leftParen_of_splitLexeme {k : TokenKind}
    (h : splitLexeme ('.' :: cs) = .ok (k, w, rest)) : k ≠ .mark .leftParen := by
  generalize hcs : '.' :: cs = ds at h
  cases LexemeAt.of_splitLexeme h with
  | word => exact wordKind_cases (P := (· ≠ .mark .leftParen)) (by simp) (by simp) _ _
  | mark _ _ _ _ hm _ =>
    rintro ⟨⟩
    rw [← hcs] at hm
    cases hm
  | _ => simp

theorem startsNumeral_of_splitNumber? (h : splitNumber? cs = some (w, rest)) : StartsNumeral w := by
  have hwhole {ds : List Char} (hne : cs.takeWhile Char.isDigit ≠ []) :
      StartsNumeral (cs.takeWhile Char.isDigit ++ ds) := by
    obtain ⟨d, ds', hd⟩ := List.exists_cons_of_ne_nil hne
    have hall : (cs.takeWhile Char.isDigit).all Char.isDigit = true := List.all_takeWhile
    rw [hd] at hall ⊢
    exact ⟨d, ds' ++ ds, rfl, .inl (Bool.and_eq_true_iff.1 hall).1⟩
  unfold splitNumber? at h
  simp only at h
  split at h
  · split at h
    · cases h
    · cases h
      by_cases hne : cs.takeWhile Char.isDigit = []
      · rw [hne]
        exact ⟨'.', _, rfl, .inr rfl⟩
      · exact hwhole hne
  · split at h
    · cases h
    · rename_i hne
      cases h
      exact hwhole fun hnil => hne (by rw [hnil]; rfl)

theorem startsNumeral_of_splitLexeme (h : splitLexeme cs = .ok (.number s, w, rest)) :
    StartsNumeral s.toList := by
  generalize hk : TokenKind.number s = kind at h
  cases LexemeAt.of_splitLexeme h with
  | number hn =>
    cases hk
    rw [String.toList_ofList]
    exact startsNumeral_of_splitNumber? hn
  | word => exact absurd hk (wordKind_cases (P := (.number s ≠ ·)) (by simp) (by simp) _ _)
  | _ => cases hk

end Lexemes

theorem Scans.lexed {p q : Position} {cs : List Char} {ts : List Token} (h : Scans p cs ts q) :
    Lexed ts := by
  induction h with
  | nil => exact ⟨.nil, nofun⟩
  | blank _ _ ih => exact ih
  | @lexeme p q kind w cs ts hw h ih =>
    refine ⟨List.isChain_cons.2 ⟨fun t ht s hs hp => ?_, ih.names⟩,
      List.forall_mem_cons.2 ⟨fun s hs => ?_, ih.unsigned⟩⟩
    · obtain rfl : kind = .identifier s := hs
      refine (isIdentifier_of_splitLexeme hw).resolve_right fun hpoint => ?_
      obtain ⟨cs, rfl⟩ : ∃ cs', cs = '.' :: cs' := by
        cases cs with
        | nil => cases hpoint
        | cons c cs => exact ⟨cs, by rw [Option.some.inj hpoint]⟩
      generalize hcs : '.' :: cs = cs' at h
      cases h with
      | nil => cases hcs
      | blank hc _ =>
        cases hcs
        cases hc
      | lexeme hw' _ =>
        cases ht
        rw [← hcs] at hw'
        exact ne_leftParen_of_splitLexeme hw' hp
    · obtain rfl : kind = .number s := hs
      exact startsNumeral_of_splitLexeme hw

/-! ## Tokens of a text -/

/-- The tokens follow each other in the text. -/
def Stands (source : String) (ts : List Token) : Prop :=
  ∃ pre cs rest p q, source.toList = pre ++ cs ∧ p.offset = Wkt.byteLength pre ∧
    Scans p cs (ts ++ rest) q

/-- What stands behind some of the tokens is split into the others. -/
theorem Scans.drop {p q : Position} {cs : List Char} {us vs : List Token}
    (h : Scans p cs (us ++ vs) q) :
    ∃ cs₁ cs₂ r, cs = cs₁ ++ cs₂ ∧ r.offset = p.offset + Wkt.byteLength cs₁ ∧ Scans r cs₂ vs q := by
  generalize hts : us ++ vs = ts at h
  induction h generalizing us with
  | @nil p =>
    obtain ⟨rfl, rfl⟩ := List.append_eq_nil_iff.1 hts
    exact ⟨[], [], p, rfl, rfl, .nil⟩
  | @blank p q c cs ts hc _ ih =>
    obtain ⟨cs₁, cs₂, r, rfl, hr, hs⟩ := ih hts
    refine ⟨c :: cs₁, cs₂, r, rfl, ?_, hs⟩
    rw [hr, Position.offset_advance, Wkt.byteLength]
    omega
  | @lexeme p q kind w cs ts hw h ih =>
    cases us with
    | nil =>
      subst hts
      exact ⟨[], _, p, rfl, rfl, .lexeme hw h⟩
    | cons u us =>
      obtain ⟨cs₁, cs₂, r, rfl, hr, hs⟩ := ih (List.cons.inj hts).2
      refine ⟨w ++ cs₁, cs₂, r, (List.append_assoc ..).symm, ?_, hs⟩
      rw [hr, Position.offset_after, byteLength_append]
      omega

namespace Stands

variable {source : String} {ts us : List Token} {t : Token}

theorem lexed (h : Stands source ts) : Lexed ts := by
  obtain ⟨_, _, _, _, _, -, -, hs⟩ := h
  exact hs.lexed.left

theorem left (h : Stands source (ts ++ us)) : Stands source ts := by
  obtain ⟨pre, cs, rest, p, q, hsource, hp, hs⟩ := h
  exact ⟨pre, cs, us ++ rest, p, q, hsource, hp, by rwa [← List.append_assoc]⟩

theorem right (h : Stands source (ts ++ us)) : Stands source us := by
  obtain ⟨pre, cs, rest, p, q, hsource, hp, hs⟩ := h
  rw [List.append_assoc] at hs
  obtain ⟨cs₁, cs₂, r, rfl, hr, hs⟩ := hs.drop
  refine ⟨pre ++ cs₁, cs₂, rest, r, q, ?_, ?_, hs⟩
  · rw [hsource, List.append_assoc]
  · rw [hr, hp, byteLength_append]

theorem tail (h : Stands source (t :: ts)) : Stands source ts :=
  right (show Stands source ([t] ++ ts) from h)

theorem of_tokenize {p : Position} (h : tokenize source = .ok (ts ++ [.finishAt p])) :
    Stands source ts := by
  obtain ⟨us, q, heq, hus⟩ := tokenize_eq_ok.1 h
  obtain ⟨rfl, -⟩ := List.append_inj' heq rfl
  exact ⟨[], source.toList, [], .start, q, rfl, rfl, by rwa [List.append_nil]⟩

end Stands

/-! ## Numbers -/

namespace Literal

/-- A numeral without a sign is read as a whole number that is not negative, or as a number. -/
theorem cases_of_readNumber {w : String} {l : Literal} (hw : StartsNumeral w.toList)
    (h : readNumber w = .ok l) :
    (∃ n, l = .integer n ∧ 0 ≤ n.toInt) ∨ ∃ x, l = .double x ∧ (x == x) = true := by
  obtain ⟨c, cs, hw, hc⟩ := hw
  have hsign : Decimal.splitSign w.toList = (false, w.toList) := by
    have hminus : c ≠ '-' := by
      rintro rfl
      revert hc
      decide
    have hplus : c ≠ '+' := by
      rintro rfl
      revert hc
      decide
    rw [hw]
    simp [Decimal.splitSign, hminus, hplus]
  have hself {x : Binary64} (hx : Binary64.read? w.toList = some x) : (x == x) = true := by
    refine Binary64.beq_self_of_read? ?_ hx
    rw [hsign, hw, List.map_cons]
    exact fun hn => (toLower_ne hc).2 (List.cons.inj hn).1
  unfold readNumber at h
  simp only at h
  split at h
  · split at h
    · rename_i hx
      cases h
      exact .inr ⟨_, rfl, hself hx⟩
    · cases h
  · split at h
    · rename_i n hn
      cases h
      refine .inl ⟨n, rfl, ?_⟩
      unfold readInt64? at hn
      simp only [hsign, Bool.false_eq_true, if_false] at hn
      split at hn
      · cases hn
      · split at hn
        · rename_i hr
          cases hn
          rw [Int64.toInt_ofInt_of_le hr.1 (by omega)]
          omega
        · cases hn
    · split at h
      · rename_i hx
        cases h
        exact .inr ⟨_, rfl, hself hx⟩
      · cases h

end Literal

end FeatureFilter
