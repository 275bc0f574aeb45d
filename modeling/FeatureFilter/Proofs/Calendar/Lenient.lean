import FeatureFilter.Proofs.Calendar
import FeatureFilter.Proofs.Geometry.Reads

/-!
# The lenient form reads back what is written

Every date and every timestamp is read back from its text, whatever its year: years of more than
four digits and years before year zero are written with a sign, which only the lenient form reads.
-/

namespace FeatureFilter

open Wkt (NoSpace noSpace_cons trimStart_of_noSpace isWhiteSpace_of_isDigit)

theorem exists_paddedDigits (width n : Nat) :
    ∃ c ds, paddedDigits width n = c :: ds ∧ c.isDigit = true := by
  have hall := all_isDigit_paddedDigits width n
  cases hp : paddedDigits width n with
  | nil =>
    have hlen := congrArg List.length hp
    have hpos : 0 < (Nat.toDigits 10 n).length := Nat.length_toDigits_pos
    simp only [paddedDigits, List.length_append, List.length_replicate, List.length_nil] at hlen
    omega
  | cons c ds =>
    rw [hp, List.all_cons, Bool.and_eq_true] at hall
    exact ⟨c, ds, rfl, hall.1⟩

/-- A text that starts with a digit has no white space in front. -/
theorem trimStart_paddedDigits (width n : Nat) (rest : List Char) :
    trimStart (paddedDigits width n ++ rest) = paddedDigits width n ++ rest := by
  obtain ⟨c, ds, hp, hc⟩ := exists_paddedDigits width n
  rw [hp]
  exact trimStart_of_noSpace (noSpace_cons.2 (isWhiteSpace_of_isDigit hc))

theorem trimStart_cons {c : Char} (h : isWhiteSpace c = false) (cs : List Char) :
    trimStart (c :: cs) = c :: cs :=
  trimStart_of_noSpace (noSpace_cons.2 h)

/-! ## Dates -/

namespace Date

theorem readField_paddedDigits {width n : Nat} (hw : 0 < width) (h : n < 10 ^ width)
    (rest : List Char) : readField width (paddedDigits width n ++ rest) = some (n, rest) := by
  have hl := length_paddedDigits hw h
  have ht : (paddedDigits width n ++ rest).take width = paddedDigits width n := List.take_left' hl
  have hd : (paddedDigits width n ++ rest).drop width = rest := List.drop_left' hl
  have hrun := takeWhile_digits (all_isDigit_paddedDigits width n) noDigit_nil
  rw [List.append_nil] at hrun
  have hne : (paddedDigits width n).isEmpty = false := by
    obtain ⟨c, ds, hp, -⟩ := exists_paddedDigits width n
    rw [hp]
    rfl
  simp only [readField, trimStart_paddedDigits, ht, hrun, hne, Bool.false_eq_true, if_false, hl,
    hd, digitsValue_paddedDigits]

theorem readYear_text {year : Int} {rest : List Char} (hr : NoDigit rest) :
    readYear (yearText year ++ rest) = some (year, rest) := by
  obtain ⟨c, ds, hp, hc⟩ := exists_paddedDigits 4 year.natAbs
  have hall := all_isDigit_paddedDigits 4 year.natAbs
  have htake := takeWhile_digits hall hr
  have hdrop := dropWhile_digits hall hr
  have hne : (paddedDigits 4 year.natAbs).isEmpty = false := by rw [hp]; rfl
  rw [yearText]
  split
  · rename_i h
    have hnat : year.toNat = year.natAbs := by omega
    have h4 : year.natAbs < 10 ^ 4 := by omega
    have hfield := readField_paddedDigits (show 0 < 4 by decide) h4 rest
    rw [hnat, readYear, trimStart_paddedDigits]
    rw [hp] at hfield ⊢
    split
    · rename_i heq
      rw [(List.cons.inj heq).1] at hc
      cases hc
    · rename_i heq
      rw [(List.cons.inj heq).1] at hc
      cases hc
    · rw [hfield]
      show some ((year.natAbs : Int), rest) = some (year, rest)
      rw [Int.natAbs_of_nonneg h.1]
  · by_cases hneg : year < 0
    · rw [if_pos hneg, List.cons_append, readYear, trimStart_cons (by decide)]
      simp only [htake, hdrop, hne, digitsValue_paddedDigits, Bool.false_eq_true, if_false]
      congr 2
      omega
    · rw [if_neg hneg, List.cons_append, readYear, trimStart_cons (by decide)]
      simp only [htake, hdrop, hne, digitsValue_paddedDigits, Bool.false_eq_true, if_false]
      congr 2
      omega

theorem readLenientFront_text (d : Date) (rest : List Char) :
    readLenientFront (d.text ++ rest) = some (d, rest) := by
  have hm : d.month < 10 ^ 2 := by
    have := d.month_le
    omega
  have hd : d.day < 10 ^ 2 := by
    have := d.day_le_31
    omega
  have hyear (cs : List Char) :
      readYear (yearText d.year ++ '-' :: cs) = some (d.year, '-' :: cs) :=
    readYear_text (noDigit_cons.2 (show '-'.isDigit = false by decide))
  simp [readLenientFront, text, hyear, readField_paddedDigits (show 0 < 2 by decide) hm,
    readField_paddedDigits (show 0 < 2 by decide) hd,
    trimStart_cons (show isWhiteSpace '-' = false by decide), readChar_cons, of?_self]

theorem readLenient?_text (d : Date) : readLenient? d.text = some d := by
  have hf := readLenientFront_text d []
  rw [List.append_nil] at hf
  rw [readLenient?, hf]
  rfl

end Date

/-! ## Timestamps -/

namespace TimeOfDay

theorem readLenientFront_text (t : TimeOfDay) {rest : List Char} (hr : NoDigit rest)
    (hp : rest.head? ≠ some '.') : readLenientFront (t.text ++ rest) = some (t.reread, rest) := by
  have hm := t.minute.isLt
  have hs := t.shownSecond_lt
  have h1 : (t.minute / 60 : Nat) < 10 ^ 2 := by omega
  have h2 : (t.minute % 60 : Nat) < 10 ^ 2 := by omega
  have h3 : t.shownSecond < 10 ^ 2 := by omega
  simp [readLenientFront, text, Date.readField_paddedDigits (show 0 < 2 by decide) h1,
    Date.readField_paddedDigits (show 0 < 2 by decide) h2,
    Date.readField_paddedDigits (show 0 < 2 by decide) h3,
    trimStart_cons (show isWhiteSpace ':' = false by decide), readChar_cons,
    readFraction_text t.shownNanosecond_lt hr hp, of?_shown]

end TimeOfDay

namespace Timestamp

theorem readLenientOffset_text (zulu : Bool) {offset : Int} (h1 : -1440 < offset)
    (h2 : offset < 1440) :
    readLenientOffset (trimStart (offsetText zulu offset)) = some offset := by
  have hh : offset.natAbs / 60 < 10 ^ 2 := by omega
  have hm : offset.natAbs % 60 < 10 ^ 2 := by omega
  have hm60 : offset.natAbs % 60 < 60 := Nat.mod_lt _ (by decide)
  have hr := readDigits_paddedDigits (show 0 < 2 by decide) hh
    (':' :: paddedDigits 2 (offset.natAbs % 60))
  have hr' := readDigits_paddedDigits (show 0 < 2 by decide) hm []
  have hcolon : (':' :: paddedDigits 2 (offset.natAbs % 60)).dropWhile
      (fun c => c = ':' || isWhiteSpace c) = paddedDigits 2 (offset.natAbs % 60) := by
    obtain ⟨c, ds, hp, hc⟩ := exists_paddedDigits 2 (offset.natAbs % 60)
    have hne : c ≠ ':' := fun h => by
      rw [h] at hc
      cases hc
    rw [hp, List.dropWhile_cons_of_pos (by decide), List.dropWhile_cons_of_neg]
    simp [hne, isWhiteSpace_of_isDigit hc]
  rw [List.append_nil] at hr'
  unfold offsetText
  split
  · rename_i hz
    simp only [Bool.and_eq_true, beq_iff_eq] at hz
    rw [hz.2]
    rfl
  · by_cases hn : offset < 0
    · rw [if_pos hn, trimStart_cons (by decide), readLenientOffset]
      simp [hr, hcolon, hr', hm60, trimStart, -Nat.cast_natAbs]
      omega
    · rw [if_neg hn, trimStart_cons (by decide), readLenientOffset]
      simp [hr, hcolon, hr', hm60, trimStart, -Nat.cast_natAbs]
      omega

theorem readLenient?_text (t : Timestamp) : readLenient? t.text = some t.reread := by
  obtain ⟨c, cs, he, hd, hp⟩ := offsetText_head true t.offset
  have hr := readLenientOffset_text true t.offset_gt t.offset_lt
  rw [he] at hr
  have hdot : (c :: cs).head? ≠ some '.' := by simpa using hp
  have ht := TimeOfDay.readLenientFront_text t.time (noDigit_cons.2 hd) hdot
  simp [readLenient?, text, civilText, he, Date.readLenientFront_text, ht, hr, of?_reread]

end Timestamp

end FeatureFilter
