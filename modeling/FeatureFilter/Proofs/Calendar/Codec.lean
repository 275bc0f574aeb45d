import FeatureFilter.Filter.Text
import FeatureFilter.Proofs.Calendar.Days
import FeatureFilter.Proofs.Text.Slice
import Mathlib.Tactic.IntervalCases

/-!
# The texts of dates and timestamps

Which texts are dates and timestamps is said here without a reader: a date is ten characters that
name a day of the calendar, and a timestamp adds the time, a fraction that is no longer than it has
to be, and the offset from UTC. The readers accept these texts, for dates no others, and give back
what is written.
-/

namespace FeatureFilter

/-! ## Numbers in a fixed number of digits -/

/-- The digits are a number in so many places. -/
structure Padded (width n : Nat) (ds : List Char) : Prop where
  length : ds.length = width
  digits : ds.all Char.isDigit = true
  value : digitsValue 0 ds = n

theorem padded_paddedDigits {width n : Nat} (hw : 0 < width) (h : n < 10 ^ width) :
    Padded width n (paddedDigits width n) :=
  ⟨length_paddedDigits hw h, all_isDigit_paddedDigits width n, digitsValue_paddedDigits width n⟩

theorem padded_two {n : Nat} (h : n < 100) : Padded 2 n (paddedDigits 2 n) :=
  padded_paddedDigits (by decide) h

theorem digit_bounds {c : Char} (h : c.isDigit = true) : 48 ≤ c.toNat ∧ c.toNat ≤ 57 := by
  simp only [Char.isDigit, Bool.and_eq_true, decide_eq_true_eq] at h
  exact h

/-- Runs of digits of one length have different values, whatever is read on from. -/
theorem eq_of_digitsValue {as bs : List Char} {m n : Nat} (hlen : as.length = bs.length)
    (ha : as.all Char.isDigit = true) (hb : bs.all Char.isDigit = true)
    (h : digitsValue m as = digitsValue n bs) : m = n ∧ as = bs := by
  induction as generalizing m n bs with
  | nil =>
    obtain rfl := List.length_eq_zero_iff.1 hlen.symm
    exact ⟨h, rfl⟩
  | cons a as ih =>
    cases bs with
    | nil => exact nomatch hlen
    | cons b bs =>
      simp only [List.all_cons, Bool.and_eq_true] at ha hb
      obtain ⟨hstep, rfl⟩ := ih (Nat.succ.inj hlen) ha.2 hb.2 h
      have hda := digit_bounds ha.1
      have hdb := digit_bounds hb.1
      simp only [Char.reduceToNat] at hstep
      have hab : a.toNat = b.toNat := by omega
      exact ⟨by omega, by rw [Char.toNat_inj.1 hab]⟩

theorem byteLength_digits {ds : List Char} (h : ds.all Char.isDigit = true) :
    Wkt.byteLength ds = ds.length := by
  induction ds with
  | nil => rfl
  | cons c ds ih =>
    simp only [List.all_cons, Bool.and_eq_true] at h
    have hsize : c.utf8Size = 1 := by
      have hc : c.toNat ≤ 127 := (digit_bounds h.1).2.trans (by decide)
      exact Char.utf8Size_eq_one_iff.2 hc
    rw [Wkt.byteLength, hsize, ih h.2, List.length_cons, Nat.add_comm]

namespace Padded

variable {width n : Nat} {ds : List Char}

theorem lt (h : Padded width n ds) : n < 10 ^ width := by
  have hlt := digitsValue_lt (n := 0) h.digits
  rwa [h.value, h.length, Nat.zero_add, Nat.one_mul] at hlt

theorem eq_paddedDigits (h : Padded width n ds) (hw : 0 < width) : ds = paddedDigits width n :=
  (eq_of_digitsValue (h.length.trans (length_paddedDigits hw h.lt).symm) h.digits
    (all_isDigit_paddedDigits width n) (h.value.trans (digitsValue_paddedDigits width n).symm)).2

theorem byteLength (h : Padded width n ds) : Wkt.byteLength ds = width :=
  (byteLength_digits h.digits).trans h.length

theorem quote_not_mem (h : Padded width n ds) : '\'' ∉ ds := fun hmem =>
  Bool.false_ne_true (List.all_eq_true.1 h.digits '\'' hmem)

end Padded

theorem readDigits_eq_some {width n : Nat} {cs rest : List Char} :
    readDigits width cs = some (n, rest) ↔ ∃ ds, Padded width n ds ∧ cs = ds ++ rest := by
  unfold readDigits
  constructor
  · intro h
    simp only at h
    split at h
    · rename_i hds
      cases h
      exact ⟨_, ⟨hds.1, hds.2, rfl⟩, (List.take_append_drop width cs).symm⟩
    · cases h
  · rintro ⟨ds, ⟨rfl, hdigits, rfl⟩, rfl⟩
    simp [hdigits]

theorem readChar_eq_some {c : Char} {cs rest : List Char} :
    readChar c cs = some rest ↔ cs = c :: rest := by
  cases cs with
  | nil => simp [readChar]
  | cons d cs => simp [readChar]

/-! ## Dates -/

namespace Date

/-- Four digits of the year, two of the month and two of the day, with hyphens between them. -/
def IsText (year month day : Nat) (cs : List Char) : Prop :=
  ∃ ys ms ds, Padded 4 year ys ∧ Padded 2 month ms ∧ Padded 2 day ds ∧
    cs = ys ++ '-' :: (ms ++ '-' :: ds)

variable {d : Date} {cs rest : List Char}

theorem isText_text (h : d.FourDigitYear) : IsText d.year.toNat d.month d.day d.text := by
  have hyear := h.2
  have hmonth := d.month_le
  have hday := d.day_le_31
  refine ⟨_, _, _, padded_paddedDigits (by decide) (by omega), padded_two (by omega),
    padded_two (by omega), ?_⟩
  rw [text, yearText, if_pos (show 0 ≤ d.year ∧ d.year ≤ 9999 from h)]

theorem eq_text_of_isText (h : d.FourDigitYear) (hcs : IsText d.year.toNat d.month d.day cs) :
    cs = d.text := by
  obtain ⟨ys, ms, ds, hy, hm, hd, rfl⟩ := hcs
  rw [text, yearText, if_pos (show 0 ≤ d.year ∧ d.year ≤ 9999 from h),
    hy.eq_paddedDigits (by decide), hm.eq_paddedDigits (by decide), hd.eq_paddedDigits (by decide)]

theorem byteLength_isText {year month day : Nat} (h : IsText year month day cs) :
    Wkt.byteLength cs = 10 := by
  obtain ⟨ys, ms, ds, hy, hm, hd, rfl⟩ := h
  have hhyphen : '-'.utf8Size = 1 := rfl
  simp only [byteLength_append, Wkt.byteLength, hy.byteLength, hm.byteLength, hd.byteLength,
    hhyphen]

theorem readFront_eq_some :
    readFront cs = some (d, rest) ↔ d.FourDigitYear ∧ cs = d.text ++ rest := by
  constructor
  · intro h
    have hyear := fourDigitYear_of_readFront h
    simp only [readFront, Option.bind_eq_bind, Option.bind_eq_some_iff, Prod.exists,
      readDigits_eq_some, readChar_eq_some, of?_eq_some_iff, Option.pure_def, Option.some.injEq,
      Prod.mk.injEq] at h
    obtain ⟨year, _, ⟨ys, hy, rfl⟩, _, rfl, month, _, ⟨ms, hm, rfl⟩, _, rfl, day, _, ⟨ds, hd, rfl⟩,
      e, ⟨he, rfl, rfl⟩, rfl, rfl⟩ := h
    obtain rfl : e.year.toNat = year := by omega
    refine ⟨hyear, ?_⟩
    rw [← eq_text_of_isText hyear ⟨ys, ms, ds, hy, hm, hd, rfl⟩]
    simp
  · rintro ⟨h, rfl⟩
    exact readFront_text h rest

theorem read?_eq_some : read? cs = some d ↔ d.FourDigitYear ∧ cs = d.text := by
  constructor
  · intro h
    obtain ⟨⟨d', rest⟩, hfront, h⟩ := Option.bind_eq_some_iff.1 h
    simp only at h
    split at h
    · rename_i hrest
      cases h
      have htext := readFront_eq_some.1 hfront
      rwa [List.isEmpty_iff.1 hrest, List.append_nil] at htext
    · cases h
  · rintro ⟨h, rfl⟩
    exact read?_text h

/-- The months of a common year have so many days. -/
def monthLengths : List Nat := [31, 28, 31, 30, 31, 30, 31, 31, 30, 31, 30, 31]

/-- Every fourth year is a leap year, of those that end a century every fourth one. -/
def LeapYear (year : Nat) : Prop := 4 ∣ year ∧ (100 ∣ year → 400 ∣ year)

inductive IsDay (year : Nat) : Nat → Nat → Prop where
  | common {month length day : Nat} (hmonth : monthLengths[month]? = some length) (h1 : 1 ≤ day)
      (hday : day ≤ length) : IsDay year (month + 1) day
  | leap (h : LeapYear year) : IsDay year 2 29

theorem leapYear_iff {year : Nat} : LeapYear year ↔ isLeapYear year = true := by
  simp only [LeapYear, isLeapYear, Bool.and_eq_true, Bool.or_eq_true, beq_iff_eq, bne_iff_ne]
  omega

theorem daysInMonth_of_lt {year : Int} {month : Nat} (h : 12 < month) :
    daysInMonth year month = 0 := by
  rw [daysInMonth, if_neg (by omega), if_neg (by omega), if_neg (by omega)]

/-- The table has the days of every month, but for the leap day. -/
theorem monthLengths_getElem? {year : Int} {month : Nat} (h : month < 12)
    (hleap : month = 1 → isLeapYear year = false) :
    monthLengths[month]? = some (daysInMonth year (month + 1)) := by
  interval_cases month <;> simp_all [monthLengths, daysInMonth]

theorem isDay_iff {year month day : Nat} :
    IsDay year month day ↔ 1 ≤ day ∧ day ≤ daysInMonth year month := by
  constructor
  · rintro (@⟨month, length, _, hmonth, h1, hday⟩ | h)
    · refine ⟨h1, hday.trans ?_⟩
      by_cases hleap : month = 1 ∧ isLeapYear year = true
      · obtain ⟨rfl, hleap⟩ := hleap
        cases hmonth
        simp [daysInMonth, hleap]
      · have hlt : month < 12 := (List.getElem?_eq_some_iff.1 hmonth).1
        have hfull : month = 1 → isLeapYear year = false := by simpa using hleap
        rw [monthLengths_getElem? hlt hfull] at hmonth
        exact (Option.some.inj hmonth).ge
    · simp [daysInMonth, leapYear_iff.1 h]
  · rintro ⟨h1, hday⟩
    obtain ⟨month, rfl⟩ : ∃ k, month = k + 1 := by
      refine Nat.exists_eq_add_one_of_ne_zero fun h0 => ?_
      rw [h0, daysInMonth_zero] at hday
      omega
    by_cases hleap : month = 1 ∧ isLeapYear year = true
    · obtain ⟨rfl, hleap⟩ := hleap
      simp only [daysInMonth, hleap] at hday
      by_cases h29 : day = 29
      · rw [h29]
        exact .leap (leapYear_iff.2 hleap)
      · simp only [reduceIte] at hday
        exact .common (show monthLengths[1]? = some 28 from rfl) h1 (by omega)
    · have hlt : month < 12 := by
        by_contra hge
        rw [daysInMonth_of_lt (by omega)] at hday
        omega
      exact .common (monthLengths_getElem? hlt (by simpa using hleap)) h1 hday

/-- The days of the years with four digits. -/
theorem isDay_iff_exists {year month day : Nat} (hyear : year ≤ 9999) :
    IsDay year month day ↔
      ∃ d : Date, d.FourDigitYear ∧ d.year.toNat = year ∧ d.month = month ∧ d.day = day := by
  rw [isDay_iff]
  constructor
  · rintro ⟨h1, hday⟩
    have hle : (year : Int) ≤ 9999 := Int.ofNat_le.2 hyear
    exact ⟨⟨year, month, day, by omega, by omega, h1, hday⟩, ⟨Int.natCast_nonneg _, hle⟩,
      rfl, rfl, rfl⟩
  · rintro ⟨d, hd, rfl, rfl, rfl⟩
    rw [Int.toNat_of_nonneg hd.1]
    exact ⟨d.day_pos, d.day_le⟩

end Date

namespace Literal

variable {s : String} {d : Date}

theorem readDate_eq_ok : readDate s = .ok d ↔ d.FourDigitYear ∧ s = String.ofList d.text := by
  have hs : s = String.ofList d.text ↔ s.toList = d.text := by
    rw [← String.toList_inj, String.toList_ofList]
  rw [hs, ← Date.read?_eq_some, readDate]
  cases Date.read? s.toList <;> simp

/-- The dates are the texts of ten bytes that name a day of the calendar. -/
theorem exists_readDate_eq_ok : (∃ d, readDate s = .ok d) ↔
    s.utf8ByteSize = 10 ∧
      ∃ year month day, Date.IsText year month day s.toList ∧ Date.IsDay year month day := by
  rw [← byteLength_toList]
  constructor
  · rintro ⟨d, h⟩
    obtain ⟨hyear, rfl⟩ := readDate_eq_ok.1 h
    have htext := Date.isText_text hyear
    have hlt := hyear.2
    rw [String.toList_ofList]
    exact ⟨Date.byteLength_isText htext, _, _, _, htext,
      (Date.isDay_iff_exists (by omega)).2 ⟨d, hyear, rfl, rfl, rfl⟩⟩
  · rintro ⟨-, year, month, day, htext, hday⟩
    have hlt : year < 10 ^ 4 := by
      obtain ⟨ys, ms, ds, hy, -⟩ := htext
      exact hy.lt
    obtain ⟨d, hyear, rfl, rfl, rfl⟩ := (Date.isDay_iff_exists (by omega)).1 hday
    refine ⟨d, readDate_eq_ok.2 ⟨hyear, ?_⟩⟩
    rw [← String.toList_inj, String.toList_ofList, Date.eq_text_of_isText hyear htext]

end Literal

/-! ## Times -/

namespace TimeOfDay

/-- A fraction of a second, in nanoseconds, in so many digits behind a point; without digits there
is no point. -/
inductive IsFraction : Nat → Nat → List Char → Prop where
  | none : IsFraction 0 0 []
  | digits {width n : Nat} {ds : List Char} (h : Padded width n ds) (hw : 0 < width) :
      IsFraction width (n * 10 ^ (9 - width)) ('.' :: ds)

def fractionWidths : List Nat := [0, 3, 6, 9]

def IsShortestFraction (nanosecond : Nat) (cs : List Char) : Prop :=
  ∃ width ∈ fractionWidths, IsFraction width nanosecond cs ∧
    ∀ width' ∈ fractionWidths, ∀ cs', IsFraction width' nanosecond cs' → width ≤ width'

/-- A fraction of so many digits is a multiple of what the last of them is worth. -/
theorem IsFraction.dvd {width nanosecond : Nat} {cs : List Char}
    (h : IsFraction width nanosecond cs) : 10 ^ (9 - width) ∣ nanosecond := by
  cases h with
  | none => exact dvd_zero _
  | digits => exact Nat.dvd_mul_left ..

theorem IsFraction.eq_zero {nanosecond : Nat} {cs : List Char} (h : IsFraction 0 nanosecond cs) :
    nanosecond = 0 := by
  generalize hw : 0 = width at h
  cases h with
  | none => rfl
  | digits _ hpos => omega

/-- Fewer digits are exact only for nanoseconds that need no more. -/
theorem IsFraction.of_mem {width nanosecond : Nat} {cs : List Char}
    (h : IsFraction width nanosecond cs) (hw : width ∈ fractionWidths) :
    width = 0 ∧ nanosecond = 0 ∨ width = 3 ∧ 1000000 ∣ nanosecond ∨ width = 6 ∧ 1000 ∣ nanosecond ∨
      width = 9 := by
  simp only [fractionWidths, List.mem_cons, List.not_mem_nil, or_false] at hw
  rcases hw with rfl | rfl | rfl | rfl
  · exact .inl ⟨rfl, h.eq_zero⟩
  · exact .inr (.inl ⟨rfl, h.dvd⟩)
  · exact .inr (.inr (.inl ⟨rfl, h.dvd⟩))
  · exact .inr (.inr (.inr rfl))

theorem isShortestFraction_text {nanosecond : Nat} (h : nanosecond < 10 ^ 9) :
    IsShortestFraction nanosecond (fractionText nanosecond) := by
  have hfraction {width n : Nat} (hw : 0 < width) (hn : n < 10 ^ width)
      (hvalue : n * 10 ^ (9 - width) = nanosecond) :
      IsFraction width nanosecond ('.' :: paddedDigits width n) :=
    hvalue ▸ .digits (padded_paddedDigits hw hn) hw
  unfold fractionText
  split
  · rename_i h0
    rw [h0]
    exact ⟨0, by decide, .none, fun _ _ _ _ => Nat.zero_le _⟩
  · split
    · refine ⟨3, by decide, hfraction (by decide) (by omega) (by omega), fun _ hmem _ h' => ?_⟩
      have := h'.of_mem hmem
      omega
    · split
      · refine ⟨6, by decide, hfraction (by decide) (by omega) (by omega), fun _ hmem _ h' => ?_⟩
        have := h'.of_mem hmem
        omega
      · refine ⟨9, by decide, hfraction (by decide) (by omega) (by omega), fun _ hmem _ h' => ?_⟩
        have := h'.of_mem hmem
        omega

/-- Two digits each of the hour, the minute and the second with colons between them, and a fraction.
-/
def IsText (t : TimeOfDay) (cs : List Char) : Prop :=
  ∃ hs ms ss fraction, Padded 2 (t.minute / 60) hs ∧ Padded 2 (t.minute % 60) ms ∧
    Padded 2 t.shownSecond ss ∧ IsShortestFraction t.shownNanosecond fraction ∧
    cs = hs ++ ':' :: (ms ++ ':' :: (ss ++ fraction))

theorem isText_text (t : TimeOfDay) : t.IsText t.text := by
  have hminute := t.minute.isLt
  have hsecond := t.shownSecond_lt
  exact ⟨_, _, _, _, padded_two (by omega), padded_two (by omega), padded_two (by omega),
    isShortestFraction_text t.shownNanosecond_lt, rfl⟩

end TimeOfDay

namespace Timestamp

/-- `Z` for no offset, else a sign and two digits each of hours and minutes with a colon between
them. -/
inductive IsOffset : Int → List Char → Prop where
  | zero : IsOffset 0 ['Z']
  | ahead {n : Nat} {hs ms : List Char} (hn : 0 < n) (hh : Padded 2 (n / 60) hs)
      (hm : Padded 2 (n % 60) ms) : IsOffset n ('+' :: (hs ++ ':' :: ms))
  | behind {n : Nat} {hs ms : List Char} (hn : 0 < n) (hh : Padded 2 (n / 60) hs)
      (hm : Padded 2 (n % 60) ms) : IsOffset (-n) ('-' :: (hs ++ ':' :: ms))

theorem isOffset_text {offset : Int} (h1 : -1440 < offset) (h2 : offset < 1440) :
    IsOffset offset (offsetText true offset) := by
  rcases lt_trichotomy offset 0 with hneg | rfl | hpos
  · obtain ⟨n, rfl⟩ : ∃ n : Nat, offset = -n := ⟨offset.natAbs, by omega⟩
    rw [offsetText, if_neg (by simp; omega), if_pos hneg, Int.natAbs_neg, Int.natAbs_natCast]
    exact .behind (by omega) (padded_two (by omega)) (padded_two (by omega))
  · exact .zero
  · obtain ⟨n, rfl⟩ : ∃ n : Nat, offset = n := ⟨offset.natAbs, by omega⟩
    rw [offsetText, if_neg (by simp; omega), if_neg (by omega), Int.natAbs_natCast]
    exact .ahead (by omega) (padded_two (by omega)) (padded_two (by omega))

/-- The date, `T`, the time and the offset. -/
def IsText (t : Timestamp) (cs : List Char) : Prop :=
  ∃ date time offset, Date.IsText t.date.year.toNat t.date.month t.date.day date ∧
    t.time.IsText time ∧ IsOffset t.offset offset ∧ cs = date ++ 'T' :: (time ++ offset)

theorem isText_text {t : Timestamp} (h : t.date.FourDigitYear) : t.IsText t.text :=
  ⟨_, _, _, Date.isText_text h, t.time.isText_text, isOffset_text t.offset_gt t.offset_lt, rfl⟩

/-- The date in UTC is at most a day off, which the range of years has room for. -/
theorem utcDate?_isSome {d : Date} (h : d.FourDigitYear) (minute : Nat) (offset : Int) :
    (utcDate? d minute offset).isSome = true := by
  have hyear := h.1
  have hyear' := h.2
  have hnext : (Date.of? (d.year + 1) 1 1).isSome = true := by
    rw [Date.of?, dif_pos ⟨by omega, by decide, Date.daysInMonth_pos _ (by decide) (by decide)⟩]
    rfl
  have hprevious : (Date.of? (d.year - 1) 12 31).isSome = true := by
    rw [Date.of?, dif_pos ⟨by omega, by decide, (Date.daysInMonth_december _).ge⟩]
    rfl
  simp only [utcDate?]
  split
  · simp [Date.previous?, hprevious]
  · split
    · simp [Date.next?, hnext]
    · rfl

theorem exists_of? {date : Date} (time : TimeOfDay) {offset : Int} (h : date.FourDigitYear)
    (h1 : -1440 < offset) (h2 : offset < 1440) :
    ∃ t, of? date time offset = some t ∧ t.date = date ∧ t.time = time ∧ t.offset = offset := by
  rw [of?, dif_pos ⟨⟨h1, h2⟩, utcDate?_isSome h time.minute offset⟩]
  exact ⟨_, rfl, rfl, rfl, rfl⟩

end Timestamp

/-! ## Literals -/

theorem Quoted.double_of_not_mem {q : Char} {cs : List Char} (h : q ∉ cs) : double q cs = cs := by
  induction cs with
  | nil => rfl
  | cons c cs ih =>
    obtain ⟨hc, hcs⟩ := not_or.1 (List.mem_cons.not.1 h)
    rw [double, if_neg (Ne.symm hc), ih hcs]

/-- A text without quotes stands between quotes as it is. -/
theorem stringText_of_not_mem {cs : List Char} (h : '\'' ∉ cs) :
    stringText (String.ofList cs) = "'" ++ String.ofList cs ++ "'" := by
  rw [stringText, Quoted.writeText, String.toList_ofList, Quoted.write, Quoted.double_of_not_mem h,
    ← String.toList_inj]
  simp

theorem Date.quote_not_mem {year month day : Nat} {cs : List Char} (h : IsText year month day cs) :
    '\'' ∉ cs := by
  obtain ⟨ys, ms, ds, hy, hm, hd, rfl⟩ := h
  simp [hy.quote_not_mem, hm.quote_not_mem, hd.quote_not_mem]

theorem TimeOfDay.quote_not_mem {t : TimeOfDay} {cs : List Char} (h : t.IsText cs) : '\'' ∉ cs := by
  obtain ⟨hs, ms, ss, fraction, hh, hm, hsec, ⟨width, -, hfraction, -⟩, rfl⟩ := h
  have hquote : '\'' ∉ fraction := by
    generalize t.shownNanosecond = n at hfraction
    cases hfraction with
    | none => exact List.not_mem_nil
    | digits h => simp [h.quote_not_mem]
  simp [hh.quote_not_mem, hm.quote_not_mem, hsec.quote_not_mem, hquote]

theorem Timestamp.quote_not_mem {t : Timestamp} {cs : List Char} (h : t.IsText cs) : '\'' ∉ cs := by
  obtain ⟨date, time, offset, hdate, htime, hoffset, rfl⟩ := h
  have hquote : '\'' ∉ offset := by
    generalize t.offset = o at hoffset
    cases hoffset with
    | zero => decide
    | ahead _ hh hm | behind _ hh hm => simp [hh.quote_not_mem, hm.quote_not_mem]
  simp [Date.quote_not_mem hdate, TimeOfDay.quote_not_mem htime, hquote]

namespace Literal

theorem readTimestamp_text {t : Timestamp} (h : t.date.FourDigitYear) (naiveAsUtc : Bool) :
    readTimestamp naiveAsUtc (String.ofList t.text) = .ok t.reread := by
  rw [readTimestamp, String.toList_ofList, Timestamp.read_text h]

theorem value_text_date {d : Date} (h : d.FourDigitYear) :
    (Value.date d).text = "DATE('" ++ String.ofList d.text ++ "')" := by
  rw [Value.text, stringText_of_not_mem (Date.quote_not_mem (Date.isText_text h)),
    ← String.toList_inj]
  simp

theorem value_text_timestamp {t : Timestamp} (h : t.date.FourDigitYear) :
    (Value.timestamp t).text = "TIMESTAMP('" ++ String.ofList t.text ++ "')" := by
  rw [Value.text, stringText_of_not_mem (Timestamp.quote_not_mem (Timestamp.isText_text h)),
    ← String.toList_inj]
  simp

/-- A text is read as a date just if it has ten bytes and names a day of the calendar, and that date
is written as the text that was read. A timestamp with a year of four digits, whatever its time of
day and its offset, is written in the form of RFC 3339, and its text is read, whether or not an
offset may be missing. It is read back as itself unless it is in a leap second that does not end a
minute; such a one is read back as the second behind it. -/
theorem calendar_text_exact (s : String) (date : Date) (time : TimeOfDay) (offset : Int) :
    ((∃ d, readDate s = .ok d) ↔ s.utf8ByteSize = 10 ∧
      ∃ year month day, Date.IsText year month day s.toList ∧ Date.IsDay year month day) ∧
    (∀ d, readDate s = .ok d → Date.IsText d.year.toNat d.month d.day s.toList ∧
      String.ofList d.text = s ∧ (Value.date d).text = "DATE('" ++ s ++ "')") ∧
    (date.FourDigitYear → -1440 < offset → offset < 1440 →
      ∃ t, Timestamp.of? date time offset = some t ∧
        t.date = date ∧ t.time = time ∧ t.offset = offset ∧ t.IsText t.text ∧
        (Value.timestamp t).text = "TIMESTAMP('" ++ String.ofList t.text ++ "')" ∧
        ∃ t', (∀ naiveAsUtc, readTimestamp naiveAsUtc (String.ofList t.text) = .ok t') ∧
          t'.date = date ∧ t'.offset = offset ∧ t'.time.minute = time.minute ∧
          (t' = t ↔ time.Regular) ∧
          (¬ time.Regular → (t'.time.second : Nat) = time.second + 1 ∧
            (t'.time.nanosecond : Nat) + 1000000000 = time.nanosecond)) := by
  refine ⟨exists_readDate_eq_ok, fun d h => ?_, fun h h1 h2 => ?_⟩
  · obtain ⟨hyear, rfl⟩ := readDate_eq_ok.1 h
    rw [String.toList_ofList]
    exact ⟨Date.isText_text hyear, rfl, value_text_date hyear⟩
  · obtain ⟨t, ht, rfl, rfl, rfl⟩ := Timestamp.exists_of? time h h1 h2
    exact ⟨t, ht, rfl, rfl, rfl, Timestamp.isText_text h, value_text_timestamp h, t.reread,
      readTimestamp_text h, rfl, rfl, rfl, Timestamp.reread_eq_self_iff,
      TimeOfDay.reread_of_not_regular⟩

/-- A leap second half an hour into the first day of year zero; in UTC it is still the year before.
-/
theorem calendar_text_exact_leapSecond :
    ∃ t, Timestamp.of? ⟨0, 1, 1, by decide, by decide, by decide, by decide⟩ ⟨30, 59, 1000000001⟩
        1439 = some t ∧
      t.utc.1.year = -1 ∧ String.ofList t.text = "0000-01-01T00:30:60.000000001+23:59" ∧
      ∀ naiveAsUtc, readTimestamp naiveAsUtc "0000-01-01T00:30:60.000000001+23:59" = .ok t := by
  obtain ⟨t, ht, hdate, htime, hoffset, -, -, t', hread, -, -, -, hself, -⟩ :=
    (calendar_text_exact "" ⟨0, 1, 1, by decide, by decide, by decide, by decide⟩
      ⟨30, 59, 1000000001⟩ 1439).2.2 (by decide) (by decide) (by decide)
  obtain rfl := hself.2 (by decide)
  have hutc : (some t').map (·.utc.1.year) = some (-1) := by
    rw [← ht]
    decide +kernel
  have htext : String.ofList t'.text = "0000-01-01T00:30:60.000000001+23:59" := by
    rw [Timestamp.text, hdate, htime, hoffset]
    decide +kernel
  exact ⟨t', ht, Option.some.inj hutc, htext, htext ▸ hread⟩

/-- The leap second behind 23:56:04, a third of it gone, is read back as another instant. -/
theorem calendar_text_exact_withinMinute :
    ∃ t t', Timestamp.of? ⟨2015, 6, 30, by decide, by decide, by decide, by decide⟩
        ⟨1436, 4, 1333333333⟩ 0 = some t ∧
      String.ofList t.text = "2015-06-30T23:56:05.333333333Z" ∧
      (∀ naiveAsUtc, readTimestamp naiveAsUtc (String.ofList t.text) = .ok t') ∧
      t'.time = ⟨1436, 5, 333333333⟩ ∧ t' ≠ t ∧ t'.sameInstant t = false := by
  let t : Timestamp := .ofUtc ⟨2015, 6, 30, by decide, by decide, by decide, by decide⟩
    ⟨1436, 4, 1333333333⟩
  exact ⟨t, t.reread, by decide +kernel, by decide +kernel, readTimestamp_text (by decide),
    by decide, by decide +kernel, by decide +kernel⟩

end Literal

end FeatureFilter
