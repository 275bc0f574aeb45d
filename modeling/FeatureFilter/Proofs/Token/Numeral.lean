import FeatureFilter.Proofs.Token.Lexed

/-!
# Number tokens

The lexer takes nothing else for a number than a numeral: every number token of a text is one, with
the characters of the numeral as its lexeme (`Scans.numeral`).
-/

namespace FeatureFilter

variable {cs w rest : List Char}

theorem exists_of_splitSign (cs : List Char) : ∃ sign, (splitSign cs).1 = signChars sign := by
  unfold splitSign
  split
  · exact ⟨some false, rfl⟩
  · exact ⟨some true, rfl⟩
  · exact ⟨none, rfl⟩

theorem Exponent.exists_of_splitExponent (cs : List Char) :
    ∃ x : Option Exponent, (splitExponent cs).1 = (x.map Exponent.chars).getD [] := by
  cases cs with
  | nil => exact ⟨none, rfl⟩
  | cons c cs =>
    simp only [splitExponent]
    split
    · rename_i h
      obtain ⟨sign, hsign⟩ := exists_of_splitSign cs
      have hdigits : ((splitSign cs).2.takeWhile Char.isDigit).all Char.isDigit = true :=
        List.all_takeWhile
      obtain ⟨hletter, hne⟩ := Bool.and_eq_true_iff.1 h
      exact ⟨some ⟨c, sign, _, by simpa using hletter, by simpa using hne, hdigits⟩,
        congrArg (fun s => c :: (s ++ _)) hsign⟩
    · exact ⟨none, rfl⟩

namespace Numeral

theorem exists_of_splitNumber? (h : splitNumber? cs = some (w, rest)) :
    ∃ n : Numeral, n.chars = w := by
  have hwhole : (cs.takeWhile Char.isDigit).all Char.isDigit = true := List.all_takeWhile
  unfold splitNumber? at h
  simp only at h
  split at h
  · rename_i behind _
    have hfraction : (behind.takeWhile Char.isDigit).all Char.isDigit = true := List.all_takeWhile
    obtain ⟨x, hx⟩ := Exponent.exists_of_splitExponent (behind.dropWhile Char.isDigit)
    split at h
    · cases h
    · rename_i hne
      cases h
      have hsome : cs.takeWhile Char.isDigit ≠ [] ∨
          ∃ ds, some (behind.takeWhile Char.isDigit) = some ds ∧ ds ≠ [] := by
        by_contra hno
        simp only [not_or, not_exists, not_and, Decidable.not_not] at hno
        exact hne (by rw [hno.1, hno.2 _ rfl]; rfl)
      refine ⟨⟨_, some _, x, hwhole, fun ds hds => Option.some.inj hds ▸ hfraction, hsome⟩, ?_⟩
      rw [chars, exponentChars, hx]
  · obtain ⟨x, hx⟩ := Exponent.exists_of_splitExponent (cs.dropWhile Char.isDigit)
    split at h
    · cases h
    · rename_i hne
      cases h
      refine ⟨⟨_, none, x, hwhole, by simp, .inl (by simpa using hne)⟩, ?_⟩
      rw [chars, exponentChars, hx]

theorem exists_of_splitLexeme {numeral : String}
    (h : splitLexeme cs = .ok (.number numeral, w, rest)) :
    numeral = String.ofList w ∧ ∃ n : Numeral, n.chars = w := by
  generalize hk : TokenKind.number numeral = kind at h
  cases LexemeAt.of_splitLexeme h with
  | number hn =>
    cases hk
    exact ⟨rfl, exists_of_splitNumber? hn⟩
  | word =>
    exact absurd hk (wordKind_cases (P := (.number numeral ≠ ·)) (by simp) (by simp) _ _)
  | _ => cases hk

end Numeral

theorem Scans.numeral {p q : Position} {ts : List Token} (h : Scans p cs ts q) :
    ∀ t ∈ ts, ∀ numeral, t.kind = .number numeral →
      t.lexeme = numeral ∧ ∃ n : Numeral, n.chars = numeral.toList := by
  induction h with
  | nil => nofun
  | blank _ _ ih => exact ih
  | @lexeme p q kind w cs ts hw _ ih =>
    refine List.forall_mem_cons.2 ⟨fun numeral hk => ?_, ih⟩
    obtain rfl : kind = .number numeral := hk
    obtain ⟨rfl, hn⟩ := Numeral.exists_of_splitLexeme hw
    rw [String.toList_ofList]
    exact ⟨rfl, hn⟩

end FeatureFilter
