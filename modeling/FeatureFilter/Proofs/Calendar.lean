import FeatureFilter.Phrase.Literal
import FeatureFilter.Proofs.Number.Digits

/-!
# Dates and timestamps read back

The text of a date with a year of four digits is read as the date, and the text of a timestamp with
such a year as the timestamp, local time and offset included, unless it is in a leap second that
does not end a minute: that one is written and read as the second behind it (`TimeOfDay.reread`).
-/

namespace FeatureFilter

/-! ## Fields of a fixed width -/

theorem length_paddedDigits {width n : Nat} (hw : 0 < width) (h : n < 10 ^ width) :
    (paddedDigits width n).length = width := by
  have := (Nat.length_toDigits_le_iff (by decide) hw).2 h
  simp only [paddedDigits, List.length_append, List.length_replicate]
  omega

theorem all_isDigit_paddedDigits (width n : Nat) :
    (paddedDigits width n).all Char.isDigit = true := by
  rw [paddedDigits, List.all_append, all_isDigit_zeros, all_isDigit_toDigits]
  rfl

theorem digitsValue_paddedDigits (width n : Nat) : digitsValue 0 (paddedDigits width n) = n := by
  rw [paddedDigits, digitsValue_append, digitsValue_zeros, Nat.zero_mul, digitsValue_toDigits]

theorem readDigits_paddedDigits {width n : Nat} (hw : 0 < width) (h : n < 10 ^ width)
    (rest : List Char) : readDigits width (paddedDigits width n ++ rest) = some (n, rest) := by
  have hl := length_paddedDigits hw h
  have ht : (paddedDigits width n ++ rest).take width = paddedDigits width n :=
    List.take_left' hl
  have hd : (paddedDigits width n ++ rest).drop width = rest := List.drop_left' hl
  simp only [readDigits, ht, hd, hl, all_isDigit_paddedDigits, digitsValue_paddedDigits, and_self,
    if_true]

theorem readChar_cons (c : Char) (rest : List Char) : readChar c (c :: rest) = some rest := by
  simp [readChar]

/-! ## Dates -/

namespace Date

theorem of?_self (d : Date) : of? d.year d.month d.day = some d := by
  rw [of?, dif_pos ⟨⟨d.year_ge, d.year_le⟩, d.day_pos, d.day_le⟩]

theorem month_le (d : Date) : d.month ≤ 12 := by
  have h1 := d.day_pos
  have h2 := d.day_le
  unfold daysInMonth at h2
  by_contra hm
  rw [if_neg (by omega), if_neg (by omega), if_neg (by omega)] at h2
  omega

theorem day_le_31 (d : Date) : d.day ≤ 31 := by
  have h := d.day_le
  unfold daysInMonth at h
  split at h
  · split at h <;> omega
  · split at h
    · omega
    · split at h <;> omega

/-- The year has four digits and no sign. -/
def FourDigitYear (d : Date) : Prop := 0 ≤ d.year ∧ d.year ≤ 9999

instance (d : Date) : Decidable d.FourDigitYear := inferInstanceAs (Decidable (_ ∧ _))

variable {d : Date}

/-- A date is read with a year of four digits. -/
theorem fourDigitYear_of_readFront {cs rest : List Char} (h : readFront cs = some (d, rest)) :
    d.FourDigitYear := by
  obtain ⟨⟨year, _⟩, hyear, h⟩ := Option.bind_eq_some_iff.1 h
  obtain ⟨_, -, h⟩ := Option.bind_eq_some_iff.1 h
  obtain ⟨_, -, h⟩ := Option.bind_eq_some_iff.1 h
  obtain ⟨_, -, h⟩ := Option.bind_eq_some_iff.1 h
  obtain ⟨_, -, h⟩ := Option.bind_eq_some_iff.1 h
  obtain ⟨_, hd, h⟩ := Option.bind_eq_some_iff.1 h
  cases h
  unfold readDigits at hyear
  simp only at hyear
  split at hyear
  · rename_i hds
    cases hyear
    have hlt := digitsValue_lt (n := 0) hds.2
    rw [hds.1] at hlt
    unfold of? at hd
    split at hd
    · cases hd
      exact ⟨Int.natCast_nonneg _, by show (digitsValue 0 _ : Int) ≤ 9999; omega⟩
    · cases hd
  · cases hyear

theorem fourDigitYear_of_read? {cs : List Char} (h : read? cs = some d) : d.FourDigitYear := by
  obtain ⟨⟨_, _⟩, hfront, h⟩ := Option.bind_eq_some_iff.1 h
  simp only at h
  split at h
  · cases h
    exact fourDigitYear_of_readFront hfront
  · cases h

theorem readFront_text (h : d.FourDigitYear) (rest : List Char) :
    readFront (d.text ++ rest) = some (d, rest) := by
  have hy : yearText d.year = paddedDigits 4 d.year.toNat := by
    rw [yearText, if_pos (show 0 ≤ d.year ∧ d.year ≤ 9999 from h)]
  have h4 : d.year.toNat < 10 ^ 4 := by
    have := h.2
    omega
  have hm : d.month < 10 ^ 2 := by
    have := d.month_le
    omega
  have hd : d.day < 10 ^ 2 := by
    have := d.day_le_31
    omega
  have hyear : ((d.year.toNat : Nat) : Int) = d.year := Int.toNat_of_nonneg h.1
  simp [readFront, text, hy, readDigits_paddedDigits (show 0 < 4 by decide) h4,
    readDigits_paddedDigits (show 0 < 2 by decide) hm,
    readDigits_paddedDigits (show 0 < 2 by decide) hd, readChar_cons, hyear, of?_self]

theorem read?_text (h : d.FourDigitYear) : read? d.text = some d := by
  have hf := readFront_text h []
  rw [List.append_nil] at hf
  simp [read?, hf]

end Date

/-! ## Times -/

namespace TimeOfDay

theorem shownSecond_lt (t : TimeOfDay) : t.shownSecond < 61 := by
  have hs := t.second.isLt
  have hn := t.nanosecond.isLt
  unfold shownSecond
  omega

theorem shownNanosecond_lt (t : TimeOfDay) : t.shownNanosecond < 1000000000 :=
  Nat.mod_lt _ (by decide)

/-- What is read from the text of the time. -/
def reread (t : TimeOfDay) : TimeOfDay :=
  ⟨t.minute, ⟨min t.shownSecond 59, by omega⟩,
    ⟨t.shownSecond / 60 * 1000000000 + t.shownNanosecond, by
      have hs := t.shownSecond_lt
      have hn := t.shownNanosecond_lt
      omega⟩⟩

/-- If the time is in a leap second, that one ends a minute. No other leap second has a text of its
own. -/
def Regular (t : TimeOfDay) : Prop := (t.nanosecond : Nat) < 1000000000 ∨ (t.second : Nat) = 59

instance (t : TimeOfDay) : Decidable t.Regular := inferInstanceAs (Decidable (_ ∨ _))

theorem reread_eq_self_iff {t : TimeOfDay} : t.reread = t ↔ t.Regular := by
  have hs := t.second.isLt
  have hn := t.nanosecond.isLt
  obtain ⟨m, ⟨s, _⟩, ⟨n, _⟩⟩ := t
  simp only [reread, Regular, shownSecond, shownNanosecond, mk.injEq, Fin.mk.injEq, true_and]
  omega

theorem text_reread (t : TimeOfDay) : t.reread.text = t.text := by
  have hs := t.shownSecond_lt
  have hn := t.shownNanosecond_lt
  have hsecond : t.reread.shownSecond = t.shownSecond := by
    show min t.shownSecond 59 +
      (t.shownSecond / 60 * 1000000000 + t.shownNanosecond) / 1000000000 = _
    omega
  have hnanosecond : t.reread.shownNanosecond = t.shownNanosecond := by
    show (t.shownSecond / 60 * 1000000000 + t.shownNanosecond) % 1000000000 = _
    omega
  rw [text, text, hsecond, hnanosecond, reread]

theorem regular_reread (t : TimeOfDay) : t.reread.Regular := by
  have hs := t.shownSecond_lt
  have hn := t.shownNanosecond_lt
  simp only [Regular, reread]
  omega

/-- A leap second inside a minute is taken for the second behind it. -/
theorem reread_of_not_regular {t : TimeOfDay} (h : ¬ t.Regular) :
    (t.reread.second : Nat) = t.second + 1 ∧
      (t.reread.nanosecond : Nat) + 1000000000 = t.nanosecond := by
  have hs := t.second.isLt
  have hn := t.nanosecond.isLt
  obtain ⟨m, ⟨s, _⟩, ⟨n, _⟩⟩ := t
  simp only [reread, Regular, shownSecond, shownNanosecond] at h ⊢
  omega

theorem of?_shown (t : TimeOfDay) :
    of? (t.minute / 60) (t.minute % 60) t.shownSecond t.shownNanosecond = some t.reread := by
  have hm := t.minute.isLt
  rw [of?, dif_pos ⟨by omega, by omega, t.shownSecond_lt, t.shownNanosecond_lt⟩]
  refine congrArg some (congrArg (fun m => TimeOfDay.mk m _ _) (Fin.ext ?_))
  show 60 * (t.minute / 60 : Nat) + t.minute % 60 = t.minute
  omega

/-- Fields never make up a leap second inside a minute. -/
theorem regular_of_of? {hour minute second nanosecond : Nat} {t : TimeOfDay}
    (h : of? hour minute second nanosecond = some t) : t.Regular := by
  unfold of? at h
  split at h
  · cases h
    simp only [Regular]
    omega
  · cases h

/-- A fraction of so many digits is worth what it says in nanoseconds. -/
theorem readFraction_padded {width n m : Nat} (hw : 0 < width) (hw9 : width ≤ 9)
    (h : n < 10 ^ width) (hm : n * 10 ^ (9 - width) = m) {rest : List Char} (hr : NoDigit rest) :
    readFraction ('.' :: (paddedDigits width n ++ rest)) = some (m, rest) := by
  have hl := length_paddedDigits hw h
  have hne : (paddedDigits width n).isEmpty = false := by
    cases hp : paddedDigits width n with
    | nil =>
      rw [hp] at hl
      exact absurd hl (Nat.ne_of_lt hw)
    | cons c cs => rfl
  have ht : (paddedDigits width n).take 9 = paddedDigits width n :=
    List.take_of_length_le (by omega)
  simp only [readFraction, takeWhile_digits (all_isDigit_paddedDigits width n) hr,
    dropWhile_digits (all_isDigit_paddedDigits width n) hr, hne, ht, hl,
    digitsValue_paddedDigits, Bool.false_eq_true, if_false]
  exact congrArg (fun x => some (x, rest)) hm

theorem readFraction_text {n : Nat} (h : n < 1000000000) {rest : List Char} (hr : NoDigit rest)
    (hp : rest.head? ≠ some '.') : readFraction (fractionText n ++ rest) = some (n, rest) := by
  unfold fractionText
  split
  · rename_i h0
    cases rest with
    | nil => rw [h0]; rfl
    | cons c cs =>
      have hc : c ≠ '.' := by simpa using hp
      rw [h0, List.nil_append]
      unfold readFraction
      split
      · rename_i heq
        exact absurd (List.cons.inj heq).1 hc
      · rfl
  · split
    · exact readFraction_padded (by decide) (by decide) (by omega) (by omega) hr
    · split
      · exact readFraction_padded (by decide) (by decide) (by omega) (by omega) hr
      · exact readFraction_padded (by decide) (by decide) (by omega) (by omega) hr

theorem readFront_text (t : TimeOfDay) {rest : List Char} (hr : NoDigit rest)
    (hp : rest.head? ≠ some '.') : readFront (t.text ++ rest) = some (t.reread, rest) := by
  have hm := t.minute.isLt
  have hs := t.shownSecond_lt
  have h1 : (t.minute / 60 : Nat) < 10 ^ 2 := by omega
  have h2 : (t.minute % 60 : Nat) < 10 ^ 2 := by omega
  have h3 : t.shownSecond < 10 ^ 2 := by omega
  simp [readFront, text, readDigits_paddedDigits (show 0 < 2 by decide) h1,
    readDigits_paddedDigits (show 0 < 2 by decide) h2,
    readDigits_paddedDigits (show 0 < 2 by decide) h3, readChar_cons,
    readFraction_text t.shownNanosecond_lt hr hp, of?_shown]

theorem regular_of_readFront {t : TimeOfDay} {cs rest : List Char}
    (h : readFront cs = some (t, rest)) : t.Regular := by
  obtain ⟨⟨_, _⟩, -, h⟩ := Option.bind_eq_some_iff.1 h
  obtain ⟨_, -, h⟩ := Option.bind_eq_some_iff.1 h
  obtain ⟨⟨_, _⟩, -, h⟩ := Option.bind_eq_some_iff.1 h
  obtain ⟨_, -, h⟩ := Option.bind_eq_some_iff.1 h
  obtain ⟨⟨_, _⟩, -, h⟩ := Option.bind_eq_some_iff.1 h
  obtain ⟨⟨_, _⟩, -, h⟩ := Option.bind_eq_some_iff.1 h
  obtain ⟨_, ht, h⟩ := Option.bind_eq_some_iff.1 h
  cases h
  exact regular_of_of? ht

end TimeOfDay

/-! ## Timestamps -/

namespace Timestamp

theorem offsetText_head (zulu : Bool) (offset : Int) :
    ∃ c cs, offsetText zulu offset = c :: cs ∧ c.isDigit = false ∧ c ≠ '.' := by
  unfold offsetText
  split
  · exact ⟨_, _, rfl, by decide, by decide⟩
  · split
    · exact ⟨_, _, rfl, by decide, by decide⟩
    · exact ⟨_, _, rfl, by decide, by decide⟩

theorem readOffset_text (zulu : Bool) {offset : Int} (h1 : -1440 < offset) (h2 : offset < 1440) :
    readOffset (offsetText zulu offset) = some offset := by
  have hh : offset.natAbs / 60 < 10 ^ 2 := by omega
  have hm : offset.natAbs % 60 < 10 ^ 2 := by omega
  have hm60 : offset.natAbs % 60 < 60 := Nat.mod_lt _ (by decide)
  have hr := readDigits_paddedDigits (show 0 < 2 by decide) hh
    (':' :: paddedDigits 2 (offset.natAbs % 60))
  have hr' := readDigits_paddedDigits (show 0 < 2 by decide) hm []
  rw [List.append_nil] at hr'
  unfold offsetText
  split
  · rename_i hz
    simp only [Bool.and_eq_true, beq_iff_eq] at hz
    rw [hz.2]
    rfl
  · unfold readOffset
    split
    · rename_i heq
      split at heq <;> exact absurd (List.cons.inj heq).1 (by decide)
    · rename_i heq
      obtain ⟨rfl, rfl⟩ := List.cons.inj heq
      simp only [hr, hr', readChar_cons, Option.bind_eq_bind, Option.bind_some, List.isEmpty_nil,
        hm60, decide_true, Bool.and_self, if_true]
      by_cases hn : offset < 0
      · rw [if_pos hn, if_neg (by decide), if_pos rfl]
        congr 1
        omega
      · rw [if_neg hn, if_pos rfl]
        congr 1
        omega
    · rename_i heq
      cases heq

/-- What is read from the text of the timestamp. -/
def reread (t : Timestamp) : Timestamp := { t with time := t.time.reread }

theorem reread_eq_self_iff {t : Timestamp} : t.reread = t ↔ t.time.Regular := by
  rw [← TimeOfDay.reread_eq_self_iff]
  exact ⟨fun h => congrArg time h, fun h => by cases t; simp only [reread, h]⟩

theorem text_reread (t : Timestamp) : t.reread.text = t.text := by
  rw [text, text, civilText, civilText, reread, TimeOfDay.text_reread]

theorem of?_reread (t : Timestamp) : of? t.date t.time.reread t.offset = some t.reread := by
  rw [of?, dif_pos ⟨⟨t.offset_gt, t.offset_lt⟩, t.utc_isSome⟩]
  rfl

theorem read_civilText (zulu : Bool) {t : Timestamp} (h : t.date.FourDigitYear) :
    read (civilText zulu t.date t.time t.offset) = .instant t.reread := by
  obtain ⟨c, cs, he, hd, hp⟩ := offsetText_head zulu t.offset
  have hr := readOffset_text zulu t.offset_gt t.offset_lt
  rw [he] at hr
  have hc : readCivil (civilText zulu t.date t.time t.offset) =
      some ((t.date, t.time.reread), c :: cs) := by
    have hdot : (c :: cs).head? ≠ some '.' := by simpa using hp
    have ht := TimeOfDay.readFront_text t.time (noDigit_cons.2 hd) hdot
    simp [readCivil, civilText, he, Date.readFront_text h, readChar_cons, ht]
  simp only [read, hc, hr, Option.bind_some, of?_reread]

/-- The text of the timestamp stands for it. -/
structure Legible (t : Timestamp) : Prop where
  year : t.date.FourDigitYear
  regular : t.time.Regular

theorem of_readCivil {cs rest : List Char} {d : Date} {t : TimeOfDay}
    (h : readCivil cs = some ((d, t), rest)) : d.FourDigitYear ∧ t.Regular := by
  obtain ⟨⟨_, _⟩, hfront, h⟩ := Option.bind_eq_some_iff.1 h
  obtain ⟨_, -, h⟩ := Option.bind_eq_some_iff.1 h
  obtain ⟨⟨_, _⟩, htime, h⟩ := Option.bind_eq_some_iff.1 h
  cases h
  exact ⟨Date.fourDigitYear_of_readFront hfront, TimeOfDay.regular_of_readFront htime⟩

theorem legible_of_read {cs : List Char} {t : Timestamp} (h : read cs = .instant t) :
    t.Legible := by
  unfold read at h
  split at h
  · cases h
  · cases h
  · rename_i hc
    split at h
    · rename_i ht
      cases h
      obtain ⟨o, -, ho⟩ := Option.bind_eq_some_iff.1 ht
      unfold of? at ho
      split at ho
      · cases ho
        obtain ⟨hyear, hregular⟩ := of_readCivil hc
        exact ⟨hyear, hregular⟩
      · cases ho
    · cases h

theorem of_read_naive {cs : List Char} {d : Date} {t : TimeOfDay} (h : read cs = .naive d t) :
    d.FourDigitYear ∧ t.Regular := by
  unfold read at h
  split at h
  · cases h
  · rename_i hc
    cases h
    exact of_readCivil hc
  · split at h <;> cases h

theorem read_text {t : Timestamp} (h : t.date.FourDigitYear) : read t.text = .instant t.reread :=
  read_civilText true h

theorem Legible.read_text {t : Timestamp} (h : t.Legible) : read t.text = .instant t := by
  rw [Timestamp.read_text h.year, reread_eq_self_iff.2 h.regular]

end Timestamp

end FeatureFilter
