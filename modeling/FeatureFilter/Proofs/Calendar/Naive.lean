import FeatureFilter.Proofs.Calendar.Codec
import FeatureFilter.Proofs.Calendar.Lenient

/-!
# Timestamps without an offset

A text is read as a timestamp in two ways: one with an offset by a reader of RFC 3339, and one
without by the format `%Y-%m-%dT%H:%M:%S%.f`, once the shape of the text has told them apart. The
two readers have rules of their own: the format takes signs, blanks and fewer digits, RFC 3339 takes
other separators and spellings of an offset. On texts of the shape they agree, and `readTimestamp`
is what they say together (`readTimestamp_eq_staged`). So a text without an offset is read as UTC
just as it is with `Z` appended (`readTimestamp_zulu`).
-/

namespace FeatureFilter

/-! ## The fields of a timestamp -/

/-- A fraction of a second in nanoseconds: digits behind a point, of which nine count. -/
inductive TimeOfDay.IsDecimals : Nat → List Char → Prop where
  | none : IsDecimals 0 []
  | digits {ds : List Char} (hne : ds ≠ []) (h : ds.all Char.isDigit = true) :
      IsDecimals (digitsValue 0 (ds.take 9) * 10 ^ (9 - (ds.take 9).length)) ('.' :: ds)

namespace Timestamp

/-- The numbers that a timestamp is written with. -/
structure Fields where
  year : Nat
  month : Nat
  day : Nat
  hour : Nat
  minute : Nat
  second : Nat
  nanosecond : Nat

def civil? : Int × Nat × Nat → Nat × Nat × Nat × Nat → Option (Date × TimeOfDay)
  | (year, month, day), (hour, minute, second, nanosecond) => do
    let date ← Date.of? year month day
    let time ← TimeOfDay.of? hour minute second nanosecond
    return (date, time)

namespace Fields

def value? (f : Fields) : Option (Date × TimeOfDay) :=
  civil? (f.year, f.month, f.day) (f.hour, f.minute, f.second, f.nanosecond)

/-- The fields in four and two digits, with a `T` between date and time and decimals at the end. -/
def IsText (f : Fields) (cs : List Char) : Prop :=
  ∃ ys ms ds hs ns ss decimals, Padded 4 f.year ys ∧ Padded 2 f.month ms ∧ Padded 2 f.day ds ∧
    Padded 2 f.hour hs ∧ Padded 2 f.minute ns ∧ Padded 2 f.second ss ∧
    TimeOfDay.IsDecimals f.nanosecond decimals ∧
    cs = ys ++ '-' :: (ms ++ '-' :: (ds ++ 'T' :: (hs ++ ':' :: (ns ++ ':' :: (ss ++ decimals)))))

end Fields

/-- The text has the shape of a timestamp without an offset, whatever its fields are. -/
def IsNaive (cs : List Char) : Prop := ∃ f : Fields, f.IsText cs

/-! ## Two readers -/

def readDay (year : List Char → Option (Int × List Char))
    (two : List Char → Option (Nat × List Char)) (cs : List Char) :
    Option ((Int × Nat × Nat) × List Char) := do
  let (year, cs) ← year cs
  let cs ← readChar '-' cs
  let (month, cs) ← two cs
  let cs ← readChar '-' cs
  let (day, cs) ← two cs
  return ((year, month, day), cs)

/-- Hour, minute and second with colons between them, and the decimals of the second. -/
def readClock (two : List Char → Option (Nat × List Char)) (cs : List Char) :
    Option ((Nat × Nat × Nat × Nat) × List Char) := do
  let (hour, cs) ← two cs
  let cs ← readChar ':' cs
  let (minute, cs) ← two cs
  let cs ← readChar ':' cs
  let (second, cs) ← two cs
  let (nanosecond, cs) ← TimeOfDay.readFraction cs
  return ((hour, minute, second, nanosecond), cs)

/-- Reads by the format `%Y-%m-%dT%H:%M:%S%.f`: each number has no more digits than it needs, white
space may stand in front of it, and the year may have a sign and any number of digits. -/
def readFormat? (cs : List Char) : Option (Date × TimeOfDay) := do
  let (day, cs) ← readDay Date.readYear (Date.readField 2) cs
  let cs ← readChar 'T' cs
  let (clock, cs) ← readClock (Date.readField 2) cs
  if cs.isEmpty then civil? day clock else none

/-- An offset of RFC 3339 at the end of a text: `Z` in either case, or a sign, which may be the
mathematical minus, and hours and minutes of a day with a colon between them. -/
def readRfc3339Offset (cs : List Char) : Option Int :=
  if cs = ['Z'] ∨ cs = ['z'] then some 0
  else match cs with
    | sign :: cs => do
      let (hours, cs) ← readDigits 2 cs
      let cs ← readChar ':' cs
      let (minutes, cs) ← readDigits 2 cs
      if cs.isEmpty && minutes < 60 && hours < 24 then
        if sign = '+' then some (60 * hours + minutes)
        else if sign = '-' ∨ sign = '\u2212' then some (-(60 * hours + minutes))
        else none
      else none
    | [] => none

def readFullYear (cs : List Char) : Option (Int × List Char) :=
  (readDigits 4 cs).map fun (n, rest) => (n, rest)

def readSeparator : List Char → Option (List Char)
  | c :: cs => if c = 'T' ∨ c = 't' ∨ c = ' ' then some cs else none
  | [] => none

def readRfc3339? (cs : List Char) : Option Timestamp := do
  let (day, cs) ← readDay readFullYear (readDigits 2) cs
  let cs ← readSeparator cs
  let (clock, cs) ← readClock (readDigits 2) cs
  let offset ← readRfc3339Offset cs
  let (date, time) ← civil? day clock
  of? date time offset

/-! ## The shape of a text -/

/-- Whether the text has a digit wherever the pattern has a nine, and else what the pattern has. -/
def matchesShape : List Char → List Char → Bool
  | [], [] => true
  | p :: ps, c :: cs => (if p = '9' then c.isDigit else c = p) && matchesShape ps cs
  | _, _ => false

/-- Whether an offset stands at the end of a text; no answer where something else does. -/
def zoneShape? : List Char → Option Bool
  | [] => some false
  | ['Z'] => some true
  | sign :: cs =>
    if (sign = '+' ∨ sign = '-') ∧ matchesShape "99:99".toList cs then some true else none

/-- Whether a text that is shaped as a timestamp has an offset; no answer for any other text. -/
def shape? (cs : List Char) : Option Bool :=
  if matchesShape "9999-99-99T99:99:99".toList (cs.take 19) then
    (TimeOfDay.readFraction (cs.drop 19)).bind fun (_, rest) => zoneShape? rest
  else none

end Timestamp

namespace Literal

/-- Reads a timestamp in two stages: by its shape, and by the reader for that. -/
def readTimestampStaged (naiveAsUtc : Bool) (text : String) : Except LiteralError Timestamp :=
  match Timestamp.shape? text.toList with
  | none => .error (.invalidTimestamp text)
  | some true =>
    match Timestamp.readRfc3339? text.toList with
    | some t => .ok t
    | none => .error (.invalidTimestamp text)
  | some false =>
    match Timestamp.readFormat? text.toList with
    | some (d, t) => if naiveAsUtc then .ok (.ofUtc d t) else .error (.missingOffset text)
    | none => .error (.invalidTimestamp text)

end Literal

/-! ## Fields that are read -/

/-- What stands behind the decimals of a time: no digit, and no point. -/
def EndsTime (rest : List Char) : Prop := NoDigit rest ∧ rest.head? ≠ some '.'

namespace Padded

variable {width n : Nat} {ds : List Char}

theorem readDigits (h : Padded width n ds) (rest : List Char) :
    readDigits width (ds ++ rest) = some (n, rest) :=
  readDigits_eq_some.2 ⟨ds, h, rfl⟩

theorem readField (h : Padded width n ds) (hw : 0 < width) (rest : List Char) :
    Date.readField width (ds ++ rest) = some (n, rest) := by
  rw [h.eq_paddedDigits hw]
  exact Date.readField_paddedDigits hw h.lt rest

theorem readYear (h : Padded 4 n ds) {rest : List Char} (hr : NoDigit rest) :
    Date.readYear (ds ++ rest) = some ((n : Int), rest) := by
  have hn := h.lt
  have hyear : Date.readYear (Date.yearText n ++ rest) = some ((n : Int), rest) :=
    Date.readYear_text hr
  rw [Date.yearText, if_pos (by omega), Int.toNat_natCast] at hyear
  rwa [h.eq_paddedDigits (by decide)]

end Padded

namespace TimeOfDay

variable {n : Nat} {cs rest : List Char}

theorem IsDecimals.readFraction (h : IsDecimals n cs) (hr : EndsTime rest) :
    readFraction (cs ++ rest) = some (n, rest) := by
  cases h with
  | none =>
    rw [List.nil_append]
    cases rest with
    | nil => rfl
    | cons c rest =>
      unfold TimeOfDay.readFraction
      split
      · rename_i heq
        exact absurd (congrArg List.head? heq) hr.2
      · rfl
  | @digits ds hne hdigits =>
    have hempty : ds.isEmpty = false := by simpa using hne
    simp only [List.cons_append, TimeOfDay.readFraction, takeWhile_digits hdigits hr.1,
      dropWhile_digits hdigits hr.1, hempty, Bool.false_eq_true, if_false, Nat.pow_eq]

theorem isDecimals_of_readFraction (h : readFraction cs = some (n, rest)) :
    ∃ decimals, IsDecimals n decimals ∧ cs = decimals ++ rest := by
  unfold readFraction at h
  split at h
  · rename_i ds
    simp only at h
    split at h
    · cases h
    · rename_i hne
      cases h
      refine ⟨_, .digits (by simpa using hne) List.all_takeWhile, ?_⟩
      rw [List.cons_append, List.takeWhile_append_dropWhile]
  · cases h
    exact ⟨[], .none, rfl⟩

end TimeOfDay

namespace Timestamp

variable {f : Fields} {cs rest : List Char} {two : List Char → Option (Nat × List Char)}

theorem readDay_eq {year : List Char → Option (Int × List Char)} {y : Int} {m d : Nat}
    {ys ms ds : List Char} (hyear : ∀ rest, year (ys ++ '-' :: rest) = some (y, '-' :: rest))
    (htwo : ∀ {n ds} rest, Padded 2 n ds → two (ds ++ rest) = some (n, rest)) (hm : Padded 2 m ms)
    (hd : Padded 2 d ds) (rest : List Char) :
    readDay year two (ys ++ '-' :: (ms ++ '-' :: (ds ++ rest))) = some ((y, m, d), rest) := by
  simp only [readDay, hyear, htwo _ hm, htwo _ hd, readChar_cons, Option.bind_eq_bind,
    Option.bind_some, Option.pure_def]

theorem readClock_eq {h m s n : Nat} {hs ms ss decimals : List Char}
    (htwo : ∀ {n ds} rest, Padded 2 n ds → two (ds ++ rest) = some (n, rest)) (hh : Padded 2 h hs)
    (hm : Padded 2 m ms) (hsec : Padded 2 s ss) (hn : TimeOfDay.IsDecimals n decimals)
    (hr : EndsTime rest) :
    readClock two (hs ++ ':' :: (ms ++ ':' :: (ss ++ (decimals ++ rest)))) =
      some ((h, m, s, n), rest) := by
  simp only [readClock, htwo _ hh, htwo _ hm, htwo _ hsec, hn.readFraction hr, readChar_cons,
    Option.bind_eq_bind, Option.bind_some, Option.pure_def]

namespace Fields.IsText

theorem readCivil (h : f.IsText cs) (hr : EndsTime rest) :
    readCivil (cs ++ rest) = f.value?.map (·, rest) := by
  obtain ⟨ys, ms, ds, hs, ns, ss, decimals, hy, hm, hd, hh, hn, hsec, hf, rfl⟩ := h
  simp only [Timestamp.readCivil, Date.readFront, List.append_assoc, List.cons_append,
    hy.readDigits, hm.readDigits, hd.readDigits, readChar_cons, Option.bind_eq_bind,
    Option.bind_some, value?, civil?]
  cases Date.of? f.year f.month f.day with
  | none => rfl
  | some date =>
    simp only [TimeOfDay.readFront, readChar_cons, hh.readDigits, hn.readDigits, hsec.readDigits,
      hf.readFraction hr, Option.bind_eq_bind, Option.bind_some, Option.pure_def]
    cases TimeOfDay.of? f.hour f.minute f.second f.nanosecond <;> rfl

theorem readFormat? (h : f.IsText cs) : readFormat? cs = f.value? := by
  obtain ⟨ys, ms, ds, hs, ns, ss, decimals, hy, hm, hd, hh, hn, hsec, hf, rfl⟩ := h
  have hyear (rest : List Char) :
      Date.readYear (ys ++ '-' :: rest) = some ((f.year : Int), '-' :: rest) :=
    hy.readYear (noDigit_cons.2 (show '-'.isDigit = false by decide))
  have htwo {n : Nat} {ds : List Char} (rest : List Char) (h : Padded 2 n ds) :
      Date.readField 2 (ds ++ rest) = some (n, rest) := h.readField (by decide) rest
  have hend : EndsTime [] := ⟨noDigit_nil, by simp⟩
  have hclock := readClock_eq htwo hh hn hsec hf hend
  rw [List.append_nil] at hclock
  simp only [Timestamp.readFormat?, readDay_eq hyear htwo hm hd, hclock, readChar_cons,
    Option.bind_eq_bind, Option.bind_some, List.isEmpty_nil, if_true, value?]

theorem readRfc3339? (h : f.IsText cs) (hr : EndsTime rest) :
    readRfc3339? (cs ++ rest) = (readRfc3339Offset rest).bind fun offset =>
      f.value?.bind fun (date, time) => of? date time offset := by
  obtain ⟨ys, ms, ds, hs, ns, ss, decimals, hy, hm, hd, hh, hn, hsec, hf, rfl⟩ := h
  have hyear (rest : List Char) :
      readFullYear (ys ++ '-' :: rest) = some ((f.year : Int), '-' :: rest) := by
    rw [readFullYear, hy.readDigits]
    rfl
  have hseparator (rest : List Char) : readSeparator ('T' :: rest) = some rest := rfl
  have htwo {n : Nat} {ds : List Char} (rest : List Char) (h : Padded 2 n ds) :
      readDigits 2 (ds ++ rest) = some (n, rest) := h.readDigits rest
  simp only [Timestamp.readRfc3339?, List.append_assoc, List.cons_append,
    readDay_eq hyear htwo hm hd, hseparator, readClock_eq htwo hh hn hsec hf hr, value?,
    Option.bind_eq_bind, Option.bind_some]

theorem exists_of_readCivil {v : Date × TimeOfDay} (h : Timestamp.readCivil cs = some (v, rest)) :
    ∃ (f : Fields) (front : List Char), f.IsText front ∧ cs = front ++ rest := by
  simp only [Timestamp.readCivil, Date.readFront, TimeOfDay.readFront, Option.bind_eq_bind,
    Option.bind_eq_some_iff, Prod.exists, readDigits_eq_some, readChar_eq_some, Option.pure_def,
    Option.some.injEq, Prod.mk.injEq] at h
  obtain ⟨_, _, ⟨year, _, ⟨ys, hy, rfl⟩, _, rfl, month, _, ⟨ms, hm, rfl⟩, _, rfl, day, _,
    ⟨ds, hd, rfl⟩, _, -, -, rfl⟩, _, rfl, _, _, ⟨hour, _, ⟨hs, hh, rfl⟩, _, rfl, minute, _,
    ⟨ns, hn, rfl⟩, _, rfl, second, _, ⟨ss, hsec, rfl⟩, nanosecond, _, hf, _, -, -, rfl⟩, -,
    rfl⟩ := h
  obtain ⟨decimals, hdecimals, rfl⟩ := TimeOfDay.isDecimals_of_readFraction hf
  exact ⟨⟨year, month, day, hour, minute, second, nanosecond⟩, _,
    ⟨ys, ms, ds, hs, ns, ss, decimals, hy, hm, hd, hh, hn, hsec, hdecimals, rfl⟩, by simp⟩

end Fields.IsText

/-! ## Shapes -/

theorem matchesShape_nil : matchesShape [] cs = true ↔ cs = [] := by
  cases cs <;> simp [matchesShape]

theorem matchesShape_cons {p : Char} {ps : List Char} (hp : p ≠ '9') :
    matchesShape (p :: ps) cs = true ↔ ∃ rest, cs = p :: rest ∧ matchesShape ps rest = true := by
  cases cs with
  | nil => simp [matchesShape]
  | cons c cs => simp [matchesShape, hp]

theorem matchesShape_nines {ps : List Char} (n : Nat) :
    matchesShape (List.replicate n '9' ++ ps) cs = true ↔
      ∃ k ds rest, Padded n k ds ∧ cs = ds ++ rest ∧ matchesShape ps rest = true := by
  induction n generalizing cs with
  | zero =>
    constructor
    · intro h
      exact ⟨0, [], cs, ⟨rfl, rfl, rfl⟩, rfl, h⟩
    · rintro ⟨k, ds, rest, hds, rfl, h⟩
      obtain rfl := List.length_eq_zero_iff.1 hds.length
      exact h
  | succ n ih =>
    rw [List.replicate_succ, List.cons_append]
    cases cs with
    | nil =>
      refine iff_of_false nofun ?_
      rintro ⟨k, ds, rest, hds, hcs, -⟩
      obtain ⟨rfl, -⟩ := List.append_eq_nil_iff.1 hcs.symm
      exact nomatch hds.length
    | cons c cs =>
      simp only [matchesShape, if_true, Bool.and_eq_true, ih]
      constructor
      · rintro ⟨hc, k, ds, rest, hds, rfl, h⟩
        exact ⟨_, c :: ds, rest,
          ⟨congrArg Nat.succ hds.length, by simp [hc, hds.digits], rfl⟩, rfl, h⟩
      · rintro ⟨k, ds, rest, hds, hcs, h⟩
        cases ds with
        | nil => exact nomatch hds.length
        | cons d ds =>
          obtain ⟨rfl, rfl⟩ := List.cons.inj hcs
          have hdigits := hds.digits
          simp only [List.all_cons, Bool.and_eq_true] at hdigits
          exact ⟨hdigits.1, _, ds, rest, ⟨Nat.succ.inj hds.length, hdigits.2, rfl⟩, rfl, h⟩

/-- The hours and minutes of an offset. -/
theorem matchesShape_zone : matchesShape "99:99".toList cs = true ↔
    ∃ h m hs ms, Padded 2 h hs ∧ Padded 2 m ms ∧ cs = hs ++ ':' :: ms := by
  have hpattern : "99:99".toList =
      List.replicate 2 '9' ++ ':' :: (List.replicate 2 '9' ++ []) := by decide
  simp only [hpattern, matchesShape_nines, matchesShape_cons (show ':' ≠ '9' by decide),
    matchesShape_nil]
  constructor
  · rintro ⟨h, hs, _, hh, rfl, _, rfl, m, ms, _, hm, rfl, rfl⟩
    exact ⟨h, m, hs, ms, hh, hm, by rw [List.append_nil]⟩
  · rintro ⟨h, m, hs, ms, hh, hm, rfl⟩
    exact ⟨h, hs, _, hh, rfl, _, rfl, m, ms, [], hm, (List.append_nil ms).symm, rfl⟩

theorem matchesShape_civil : matchesShape "9999-99-99T99:99:99".toList cs = true ↔
    ∃ y m d h n s ys ms ds hs ns ss, Padded 4 y ys ∧ Padded 2 m ms ∧ Padded 2 d ds ∧
      Padded 2 h hs ∧ Padded 2 n ns ∧ Padded 2 s ss ∧
      cs = ys ++ '-' :: (ms ++ '-' :: (ds ++ 'T' :: (hs ++ ':' :: (ns ++ ':' :: ss)))) := by
  have hpattern : "9999-99-99T99:99:99".toList = List.replicate 4 '9' ++ '-' ::
      (List.replicate 2 '9' ++ '-' :: (List.replicate 2 '9' ++ 'T' :: (List.replicate 2 '9' ++
        ':' :: (List.replicate 2 '9' ++ ':' :: (List.replicate 2 '9' ++ []))))) := by decide
  simp only [hpattern, matchesShape_nines, matchesShape_cons (show ':' ≠ '9' by decide),
    matchesShape_cons (show '-' ≠ '9' by decide), matchesShape_cons (show 'T' ≠ '9' by decide),
    matchesShape_nil]
  constructor
  · rintro ⟨y, ys, _, hy, rfl, _, rfl, m, ms, _, hm, rfl, _, rfl, d, ds, _, hd, rfl, _, rfl,
      h, hs, _, hh, rfl, _, rfl, n, ns, _, hn, rfl, _, rfl, s, ss, _, hsec, rfl, rfl⟩
    exact ⟨y, m, d, h, n, s, ys, ms, ds, hs, ns, ss, hy, hm, hd, hh, hn, hsec,
      by rw [List.append_nil]⟩
  · rintro ⟨y, m, d, h, n, s, ys, ms, ds, hs, ns, ss, hy, hm, hd, hh, hn, hsec, rfl⟩
    exact ⟨y, ys, _, hy, rfl, _, rfl, m, ms, _, hm, rfl, _, rfl, d, ds, _, hd, rfl, _, rfl,
      h, hs, _, hh, rfl, _, rfl, n, ns, _, hn, rfl, _, rfl, s, ss, [], hsec,
      (List.append_nil ss).symm, rfl⟩

/-! ## Offsets -/

variable {b : Bool}

/-- A shaped offset does not go on with the decimals of a second. -/
theorem endsTime_of_zoneShape? (h : zoneShape? rest = some b) : EndsTime rest := by
  unfold zoneShape? at h
  split at h
  · exact ⟨noDigit_nil, by simp⟩
  · exact ⟨noDigit_cons.2 (by decide), by decide⟩
  · split at h
    · rename_i hsign
      obtain ⟨rfl | rfl, -⟩ := hsign <;> exact ⟨noDigit_cons.2 (by decide), by simp⟩
    · cases h

theorem zoneShape?_eq_false : zoneShape? rest = some false ↔ rest = [] := by
  refine ⟨fun h => ?_, fun h => h ▸ rfl⟩
  unfold zoneShape? at h
  split at h
  · rfl
  · cases h
  · split at h <;> cases h

theorem zoneShape?_of_readOffset {offset : Int} (h : readOffset rest = some offset) :
    zoneShape? rest = some true := by
  unfold readOffset at h
  split at h
  · rfl
  · rename_i sign cs hZ
    simp only [Option.bind_eq_bind, Option.bind_eq_some_iff, Prod.exists, readDigits_eq_some,
      readChar_eq_some] at h
    obtain ⟨hours, _, ⟨hs, hh, rfl⟩, _, rfl, minutes, ending, ⟨ms, hm, rfl⟩, h⟩ := h
    split at h
    · rename_i hend
      simp only [Bool.and_eq_true, List.isEmpty_iff] at hend
      rw [hend.1, List.append_nil]
      have hsign : sign = '+' ∨ sign = '-' := by
        split at h
        · exact .inl ‹_›
        · split at h
          · exact .inr ‹_›
          · cases h
      rw [zoneShape?, if_pos ⟨hsign, matchesShape_zone.2 ⟨hours, minutes, hs, ms, hh, hm, rfl⟩⟩]
      rintro rfl -
      rcases hsign with hsign | hsign <;> cases hsign
    · cases h
  · cases h

def signedMinutes (sign : Char) (hours minutes : Nat) : Int :=
  if sign = '+' then 60 * hours + minutes else -(60 * hours + minutes)

section Zone

variable {sign : Char} {hours minutes : Nat} {hs ms : List Char}

theorem readOffset_zone (hsign : sign = '+' ∨ sign = '-') (hh : Padded 2 hours hs)
    (hm : Padded 2 minutes ms) : readOffset (sign :: (hs ++ ':' :: ms)) =
      if minutes < 60 then some (signedMinutes sign hours minutes) else none := by
  have hdigits := hm.readDigits []
  rw [List.append_nil] at hdigits
  have hzulu : sign = 'Z' → hs ++ ':' :: ms = [] → False := by simp
  simp only [readOffset, hh.readDigits, readChar_cons, hdigits, Option.bind_eq_bind,
    Option.bind_some, List.isEmpty_nil, Bool.true_and, decide_eq_true_eq, signedMinutes]
  rcases hsign with rfl | rfl <;> rfl

theorem readRfc3339Offset_zone (hsign : sign = '+' ∨ sign = '-') (hh : Padded 2 hours hs)
    (hm : Padded 2 minutes ms) : readRfc3339Offset (sign :: (hs ++ ':' :: ms)) =
      if minutes < 60 ∧ hours < 24 then some (signedMinutes sign hours minutes) else none := by
  have hdigits := hm.readDigits []
  rw [List.append_nil] at hdigits
  rw [readRfc3339Offset, if_neg (by simp)]
  simp only [hh.readDigits, readChar_cons, hdigits, Option.bind_eq_bind, Option.bind_some,
    List.isEmpty_nil, Bool.and_eq_true, decide_eq_true_eq, true_and, signedMinutes]
  rcases hsign with rfl | rfl <;> rfl

/-- A day has no more than 24 hours, and no instant is further from UTC. -/
theorem of?_signedMinutes (hday : ¬ hours < 24) (date : Date) (time : TimeOfDay) :
    of? date time (signedMinutes sign hours minutes) = none := by
  refine dif_neg ?_
  unfold signedMinutes
  split <;> omega

end Zone

/-- The reader of RFC 3339 takes a shaped offset as the exact reader does, where there is an instant
with the offset. -/
theorem readRfc3339Offset_bind (h : zoneShape? rest = some true) (date : Date) (time : TimeOfDay) :
    (readRfc3339Offset rest).bind (of? date time) = (readOffset rest).bind (of? date time) := by
  unfold zoneShape? at h
  split at h
  · cases h
  · rfl
  · split at h
    · rename_i hshape
      obtain ⟨hours, minutes, hs, ms, hh, hm, rfl⟩ := matchesShape_zone.1 hshape.2
      rw [readOffset_zone hshape.1 hh hm, readRfc3339Offset_zone hshape.1 hh hm]
      by_cases hday : hours < 24
      · simp only [hday, and_true]
      · by_cases hhour : minutes < 60
        · simp only [hday, hhour, and_false, if_false, if_true, Option.bind_none, Option.bind_some,
            of?_signedMinutes hday]
        · simp only [hhour, false_and]
    · cases h

theorem shape?_eq_some : shape? cs = some b ↔
    ∃ (f : Fields) (front rest : List Char), f.IsText front ∧ cs = front ++ rest ∧
      zoneShape? rest = some b := by
  unfold shape?
  constructor
  · intro h
    split at h
    · rename_i hcivil
      obtain ⟨y, m, d, h', n, s, ys, ms, ds, hs, ns, ss, hy, hm, hd, hh, hn, hsec, htake⟩ :=
        matchesShape_civil.1 hcivil
      obtain ⟨⟨nanosecond, rest⟩, hfraction, hzone⟩ := Option.bind_eq_some_iff.1 h
      obtain ⟨decimals, hdecimals, hdrop⟩ := TimeOfDay.isDecimals_of_readFraction hfraction
      refine ⟨⟨y, m, d, h', n, s, nanosecond⟩, _, rest,
        ⟨ys, ms, ds, hs, ns, ss, decimals, hy, hm, hd, hh, hn, hsec, hdecimals, rfl⟩, ?_, hzone⟩
      rw [← List.take_append_drop 19 cs, htake, hdrop]
      simp
    · cases h
  · rintro ⟨f, front, rest, ⟨ys, ms, ds, hs, ns, ss, decimals, hy, hm, hd, hh, hn, hsec, hf, rfl⟩,
      rfl, hzone⟩
    have hfraction := hf.readFraction (endsTime_of_zoneShape? hzone)
    have hlength :
        (ys ++ '-' :: (ms ++ '-' :: (ds ++ 'T' :: (hs ++ ':' :: (ns ++ ':' :: ss))))).length =
        19 := by
      simp [hy.length, hm.length, hd.length, hh.length, hn.length, hsec.length]
    have happ : ys ++ '-' :: (ms ++ '-' :: (ds ++ 'T' :: (hs ++ ':' :: (ns ++ ':' ::
        (ss ++ decimals))))) ++ rest =
        ys ++ '-' :: (ms ++ '-' :: (ds ++ 'T' :: (hs ++ ':' :: (ns ++ ':' :: ss)))) ++
          (decimals ++ rest) := by simp
    rw [happ, List.take_left' hlength, List.drop_left' hlength, hfraction, if_pos]
    · exact hzone
    · exact matchesShape_civil.2
        ⟨_, _, _, _, _, _, ys, ms, ds, hs, ns, ss, hy, hm, hd, hh, hn, hsec, rfl⟩

theorem shape?_eq_false : shape? cs = some false ↔ IsNaive cs := by
  simp only [shape?_eq_some, zoneShape?_eq_false]
  constructor
  · rintro ⟨f, front, rest, hf, rfl, rfl⟩
    exact ⟨f, by rwa [List.append_nil]⟩
  · rintro ⟨f, hf⟩
    exact ⟨f, cs, [], hf, (List.append_nil cs).symm, rfl⟩

end Timestamp

namespace Literal

/-- The exact reader says what the two stages say. -/
theorem readTimestamp_eq_staged : readTimestamp = readTimestampStaged := by
  funext naiveAsUtc text
  unfold readTimestamp readTimestampStaged Timestamp.read
  cases hshape : Timestamp.shape? text.toList with
  | none =>
    cases hcivil : Timestamp.readCivil text.toList with
    | none => rfl
    | some p =>
      obtain ⟨⟨d, t⟩, rest⟩ := p
      obtain ⟨f, front, hf, htext⟩ := Timestamp.Fields.IsText.exists_of_readCivil hcivil
      have hzone (b : Bool) : Timestamp.zoneShape? rest ≠ some b := fun hzone => by
        rw [Timestamp.shape?_eq_some.2 ⟨f, front, rest, hf, htext, hzone⟩] at hshape
        cases hshape
      cases rest with
      | nil => exact absurd rfl (hzone false)
      | cons c rest =>
        cases hoffset : Timestamp.readOffset (c :: rest) with
        | none => simp only [hoffset, Option.bind_none]
        | some offset => exact absurd (Timestamp.zoneShape?_of_readOffset hoffset) (hzone true)
  | some b =>
    obtain ⟨f, front, rest, hf, htext, hzone⟩ := Timestamp.shape?_eq_some.1 hshape
    have hend := Timestamp.endsTime_of_zoneShape? hzone
    rw [htext, hf.readCivil hend]
    cases b with
    | false =>
      obtain rfl := Timestamp.zoneShape?_eq_false.1 hzone
      rw [List.append_nil, hf.readFormat?]
      cases f.value? <;> rfl
    | true =>
      rw [hf.readRfc3339? hend]
      obtain ⟨c, rest, rfl⟩ : ∃ c rest', rest = c :: rest' := by
        cases rest with
        | nil => cases hzone
        | cons c rest => exact ⟨c, rest, rfl⟩
      cases hvalue : f.value? with
      | none => cases Timestamp.readRfc3339Offset (c :: rest) <;> rfl
      | some p =>
        simp only [Option.map_some, Option.bind_some]
        rw [Timestamp.readRfc3339Offset_bind hzone]
        cases (Timestamp.readOffset (c :: rest)).bind (Timestamp.of? p.1 p.2) <;> rfl

variable {f : Timestamp.Fields} {text : String}

theorem readTimestampStaged_naive (hf : f.IsText text.toList) (naiveAsUtc : Bool) :
    readTimestampStaged naiveAsUtc text = match f.value? with
      | some (d, t) => if naiveAsUtc then .ok (.ofUtc d t) else .error (.missingOffset text)
      | none => .error (.invalidTimestamp text) := by
  rw [readTimestampStaged, Timestamp.shape?_eq_false.2 ⟨f, hf⟩]
  simp only [hf.readFormat?]

theorem readTimestampStaged_zulu (hf : f.IsText text.toList) (naiveAsUtc : Bool) :
    readTimestampStaged naiveAsUtc (text ++ "Z") = match f.value? with
      | some (d, t) => .ok (.ofUtc d t)
      | none => .error (.invalidTimestamp (text ++ "Z")) := by
  have hzulu : Timestamp.zoneShape? ['Z'] = some true := rfl
  have htext : (text ++ "Z").toList = text.toList ++ ['Z'] := String.toList_append
  have hshape := Timestamp.shape?_eq_some.2 ⟨f, _, _, hf, htext, hzulu⟩
  have hread := hf.readRfc3339? (Timestamp.endsTime_of_zoneShape? hzulu)
  rw [← htext] at hread
  have hof (d : Date) (t : TimeOfDay) : Timestamp.of? d t 0 = some (.ofUtc d t) :=
    dif_pos ⟨by decide, (Timestamp.ofUtc d t).utc_isSome⟩
  have hoffset : Timestamp.readRfc3339Offset ['Z'] = some 0 := rfl
  rw [readTimestampStaged, hshape]
  simp only [hread, hoffset, Option.bind_some, hof]
  cases f.value? <;> rfl

/-- A text that is shaped as a timestamp without an offset is read as UTC just as it is with `Z`
appended, and without leave it is refused for the missing offset or for its fields. Whether there is
leave makes no difference to any other text. -/
theorem readTimestamp_zulu (text : String) :
    (Timestamp.IsNaive text.toList →
      (∀ t, readTimestamp true text = .ok t ↔ readTimestamp false (text ++ "Z") = .ok t) ∧
      (∀ t, readTimestamp true text = .ok t → t.offset = 0) ∧
      ((∃ t, readTimestamp false (text ++ "Z") = .ok t) →
        readTimestamp false text = .error (.missingOffset text)) ∧
      ((¬ ∃ t, readTimestamp false (text ++ "Z") = .ok t) →
        readTimestamp false text = .error (.invalidTimestamp text))) ∧
    (¬ Timestamp.IsNaive text.toList → readTimestamp true text = readTimestamp false text) := by
  simp only [readTimestamp_eq_staged]
  constructor
  · rintro ⟨f, hf⟩
    simp only [readTimestampStaged_naive hf, readTimestampStaged_zulu hf]
    cases f.value? with
    | none =>
      refine ⟨fun t => ⟨fun h => ?_, fun h => ?_⟩, fun t h => ?_, fun ⟨t, h⟩ => ?_, fun _ => rfl⟩
      all_goals cases h
    | some p =>
      refine ⟨fun t => Iff.rfl, fun t ht => ?_, fun _ => rfl, fun h => absurd ⟨_, rfl⟩ h⟩
      cases ht
      rfl
  · intro h
    rw [← Timestamp.shape?_eq_false] at h
    unfold readTimestampStaged
    split
    · rfl
    · rfl
    · exact absurd ‹_› h

/-- A leap second without an offset, a month that no year has, and an offset that is not `Z`. -/
theorem readTimestamp_zulu_leapSecond :
    Timestamp.IsNaive "2006-12-31T23:59:60.5".toList ∧
    (∃ t, readTimestamp true "2006-12-31T23:59:60.5" = .ok t ∧ t.offset = 0) ∧
    readTimestamp false "2006-12-31T23:59:60.5" =
      .error (.missingOffset "2006-12-31T23:59:60.5") ∧
    Timestamp.IsNaive "2006-13-01T00:00:00".toList ∧
    readTimestamp false "2006-13-01T00:00:00" = .error (.invalidTimestamp "2006-13-01T00:00:00") ∧
    ¬ Timestamp.IsNaive "2006-12-31T00:00:00+01:00".toList ∧
    readTimestamp true "2006-12-31T00:00:00+01:00" =
      readTimestamp false "2006-12-31T00:00:00+01:00" := by
  have hleap : Timestamp.IsNaive "2006-12-31T23:59:60.5".toList :=
    Timestamp.shape?_eq_false.1 (by decide +kernel)
  have hmonth : Timestamp.IsNaive "2006-13-01T00:00:00".toList :=
    Timestamp.shape?_eq_false.1 (by decide +kernel)
  have hoffset : ¬ Timestamp.IsNaive "2006-12-31T00:00:00+01:00".toList := by
    rw [← Timestamp.shape?_eq_false]
    decide +kernel
  have hread : (readTimestamp false ("2006-12-31T23:59:60.5" ++ "Z")).isOk = true := by
    decide +kernel
  have hunread : (readTimestamp false ("2006-13-01T00:00:00" ++ "Z")).isOk = false := by
    decide +kernel
  obtain ⟨t, ht⟩ : ∃ t, readTimestamp false ("2006-12-31T23:59:60.5" ++ "Z") = .ok t := by
    generalize readTimestamp false ("2006-12-31T23:59:60.5" ++ "Z") = result at hread
    cases result with
    | ok t => exact ⟨t, rfl⟩
    | error e => cases hread
  have hrefused : ¬ ∃ t, readTimestamp false ("2006-13-01T00:00:00" ++ "Z") = .ok t := by
    rintro ⟨t, ht⟩
    rw [ht] at hunread
    cases hunread
  obtain ⟨hiff, hzero, hmissing, -⟩ := (readTimestamp_zulu "2006-12-31T23:59:60.5").1 hleap
  exact ⟨hleap, ⟨t, (hiff t).2 ht, hzero t ((hiff t).2 ht)⟩, hmissing ⟨t, ht⟩, hmonth,
    ((readTimestamp_zulu "2006-13-01T00:00:00").1 hmonth).2.2.2 hrefused, hoffset,
    (readTimestamp_zulu "2006-12-31T00:00:00+01:00").2 hoffset⟩

end Literal

end FeatureFilter
