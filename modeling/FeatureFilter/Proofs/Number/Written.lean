import FeatureFilter.Proofs.Number.Numeral

/-!
# Texts that are read as numbers

A text that is read as a decimal number is a numeral behind an optional sign
(`Numeral.exists_of_read?`). So is the run of characters that the reader of well-known text takes
for a number (`Wkt.exists_numeral`).
-/

namespace FeatureFilter

theorem Decimal.exists_of_splitSign (cs : List Char) :
    ∃ sign, cs = signChars sign ++ (splitSign cs).2 := by
  unfold splitSign
  split
  · exact ⟨some true, rfl⟩
  · exact ⟨some false, rfl⟩
  · exact ⟨none, rfl⟩

theorem Exponent.exists_of_readTail {cs : List Char} {e : Int} (h : Decimal.readTail cs = some e) :
    ∃ x : Option Exponent, cs = (x.map Exponent.chars).getD [] := by
  unfold Decimal.readTail at h
  split at h
  · exact ⟨none, rfl⟩
  · rename_i c cs
    split at h
    · rename_i hc
      unfold Decimal.readExponent at h
      simp only at h
      split at h
      · cases h
      · rename_i hds
        obtain ⟨sign, hsign⟩ := Decimal.exists_of_splitSign cs
        simp only [Bool.or_eq_true, List.isEmpty_iff, Bool.not_eq_true', not_or,
          Bool.not_eq_false] at hds
        exact ⟨some ⟨c, sign, _, hc, hds.1, hds.2⟩, congrArg _ hsign⟩
    · cases h

namespace Numeral

theorem exists_of_readUnsigned {negative : Bool} {cs : List Char} {d : Decimal}
    (h : Decimal.readUnsigned negative cs = some d) : ∃ n : Numeral, cs = n.chars := by
  have hwhole : (cs.takeWhile Char.isDigit).all Char.isDigit = true := List.all_takeWhile
  have hcs : cs.takeWhile Char.isDigit ++ cs.dropWhile Char.isDigit = cs :=
    List.takeWhile_append_dropWhile
  unfold Decimal.readUnsigned at h
  simp only at h
  split at h
  · rename_i rest hrest
    split at h
    · cases h
    · rename_i hne
      obtain ⟨e, he, -⟩ := Option.map_eq_some_iff.1 h
      obtain ⟨x, hx⟩ := Exponent.exists_of_readTail he
      have hfraction : (rest.takeWhile Char.isDigit).all Char.isDigit = true := List.all_takeWhile
      have hsome : cs.takeWhile Char.isDigit ≠ [] ∨
          ∃ ds, some (rest.takeWhile Char.isDigit) = some ds ∧ ds ≠ [] := by
        by_contra hno
        simp only [not_or, not_exists, not_and, Decidable.not_not] at hno
        exact hne (by rw [hno.1, hno.2 _ rfl]; rfl)
      refine ⟨⟨_, some _, x, hwhole, fun ds hds => Option.some.inj hds ▸ hfraction, hsome⟩, ?_⟩
      have hrest' : rest.takeWhile Char.isDigit ++ rest.dropWhile Char.isDigit = rest :=
        List.takeWhile_append_dropWhile
      rw [hx] at hrest'
      rw [chars, exponentChars]
      simp only
      rw [hrest', ← hrest, hcs]
  · split at h
    · cases h
    · rename_i hne
      obtain ⟨e, he, -⟩ := Option.map_eq_some_iff.1 h
      obtain ⟨x, hx⟩ := Exponent.exists_of_readTail he
      refine ⟨⟨_, none, x, hwhole, by simp, .inl (by simpa using hne)⟩, ?_⟩
      rw [chars, exponentChars]
      simp only
      rw [← hx, hcs]

/-- A text that is read as a number without any of the letters of the words for infinity and
not-a-number. -/
theorem exists_of_read? {cs : List Char} {x : Binary64} (h : Binary64.read? cs = some x)
    (hn : ∀ c ∈ cs, c.toLower ≠ 'n') : ∃ sign, ∃ n : Numeral, cs = signChars sign ++ n.chars := by
  obtain ⟨sign, hsign⟩ := Decimal.exists_of_splitSign cs
  have hword {w : List Char} (hw : 'n' ∈ w) : (Decimal.splitSign cs).2.map Char.toLower ≠ w := by
    rintro rfl
    obtain ⟨c, hc, hlower⟩ := List.mem_map.1 hw
    exact hn c (hsign ▸ List.mem_append_right _ hc) hlower
  have hinf : (Decimal.splitSign cs).2.map Char.toLower ≠ "inf".toList := hword (by decide)
  have hinfinity : (Decimal.splitSign cs).2.map Char.toLower ≠ "infinity".toList :=
    hword (by decide)
  have hnan : (Decimal.splitSign cs).2.map Char.toLower ≠ "nan".toList := hword (by decide)
  unfold Binary64.read? at h
  simp only [hinf, hinfinity, hnan, or_self, if_false] at h
  obtain ⟨d, hd, -⟩ := Option.map_eq_some_iff.1 h
  obtain ⟨n, hchars⟩ := exists_of_readUnsigned hd
  exact ⟨sign, n, hchars ▸ hsign⟩

end Numeral

/-! ## In well-known text -/

namespace Wkt

/-- Whether a character is taken does not depend on what comes behind it. -/
theorem numberRun_cons (signed : Bool) (c : Char) :
    (∀ cs, numberRun signed (c :: cs) = []) ∨
      ∃ signed', ∀ cs, numberRun signed (c :: cs) = c :: numberRun signed' cs := by
  simp only [numberRun]
  split
  · exact .inr ⟨_, fun _ => rfl⟩
  · split
    · exact .inr ⟨_, fun _ => rfl⟩
    · split
      · exact .inr ⟨_, fun _ => rfl⟩
      · exact .inl fun _ => rfl

theorem mem_numberRun {signed : Bool} {cs : List Char} {c : Char} (h : c ∈ numberRun signed cs) :
    (c.isDigit = true ∨ c = '.') ∨ c = 'e' ∨ c = 'E' ∨ c = '-' ∨ c = '+' := by
  fun_induction numberRun signed cs with
  | case1 => cases h
  | case2 signed d cs hd ih =>
    obtain rfl | h := List.mem_cons.1 h
    · exact .inl (by simpa using hd)
    · exact ih h
  | case3 signed d cs _ hd ih =>
    obtain rfl | h := List.mem_cons.1 h
    · rcases (by simpa using hd : c = 'e' ∨ c = 'E') with hd | hd
      · exact .inr (.inl hd)
      · exact .inr (.inr (.inl hd))
    · exact ih h
  | case4 signed d cs _ _ hd ih =>
    obtain rfl | h := List.mem_cons.1 h
    · exact .inr (.inr (.inr (by simpa using (Bool.and_eq_true_iff.1 hd).2)))
    · exact ih h
  | case5 => cases h

theorem take_numberRun (signed : Bool) (cs : List Char) :
    cs.take (numberRun signed cs).length = numberRun signed cs := by
  fun_induction numberRun signed cs with
  | case5 => rfl
  | _ => simp_all

theorem exists_numberRun_append (signed : Bool) (cs : List Char) :
    ∃ rest, cs = numberRun signed cs ++ rest := by
  have h := List.take_append_drop (numberRun signed cs).length cs
  rw [take_numberRun] at h
  exact ⟨_, h.symm⟩

theorem endsNumeral_of_numberRun {signed : Bool} {run rest : List Char}
    (h : numberRun signed (run ++ rest) = run) : EndsNumeral rest := by
  induction run generalizing signed with
  | nil =>
    rintro c hc
    obtain ⟨cs, rfl⟩ := List.head?_eq_some_iff.1 hc
    rw [List.nil_append, numberRun] at h
    split at h
    · cases h
    · rename_i hdigit
      split at h
      · cases h
      · rename_i hletter
        simp only [Bool.or_eq_true, decide_eq_true_eq, not_or, Bool.not_eq_true] at hdigit hletter
        exact ⟨hdigit.1, hdigit.2, hletter.1, hletter.2⟩
  | cons c run ih =>
    rw [List.cons_append] at h
    rcases numberRun_cons signed c with hstop | ⟨signed', htake⟩
    · rw [hstop] at h
      cases h
    · rw [htake] at h
      exact ih (List.cons.inj h).2

/-- The run does not reach further when the text is cut off behind it. -/
theorem numberRun_cut {signed : Bool} {run v b : List Char}
    (h : numberRun signed (run ++ (v ++ b)) = run) : numberRun signed (run ++ v) = run := by
  induction run generalizing signed with
  | nil =>
    cases v with
    | nil => rfl
    | cons c v =>
      rcases numberRun_cons signed c with hstop | ⟨signed', htake⟩
      · exact hstop v
      · cases (htake (v ++ b)).symm.trans h
  | cons c run ih =>
    rw [List.cons_append] at h ⊢
    rcases numberRun_cons signed c with hstop | ⟨signed', htake⟩
    · rw [hstop] at h
      cases h
    · rw [htake] at h ⊢
      rw [ih (List.cons.inj h).2]

theorem toLower_ne_of_mem_numberRun {signed : Bool} {cs : List Char} {c : Char}
    (h : c ∈ numberRun signed cs) : c.toLower ≠ 'n' := by
  rcases mem_numberRun h with hd | rfl | rfl | rfl | rfl
  · exact (toLower_ne hd).2
  all_goals decide

theorem exists_numeral {signed : Bool} {cs : List Char} {x : Binary64}
    (h : Binary64.read? (numberRun signed cs) = some x) :
    ∃ sign, ∃ n : Numeral, numberRun signed cs = signChars sign ++ n.chars :=
  Numeral.exists_of_read? h fun _ hc => toLower_ne_of_mem_numberRun hc

end Wkt

end FeatureFilter
