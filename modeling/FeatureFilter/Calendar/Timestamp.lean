import FeatureFilter.Calendar.Date

/-!
# Timestamps

An instant given by a local date and time and an offset from UTC in whole minutes. A leap second may
follow any second, and is written as the number of the next one: second 60 where it ends a minute.
The written form is that of RFC 3339; it is read in its exact form, where the offset may be missing,
and in a lenient form with blanks between the fields.
-/

namespace FeatureFilter

structure TimeOfDay where
  /-- Minutes since midnight. -/
  minute : Fin 1440
  second : Fin 60
  /-- From 1000000000 on it is in the leap second behind the second. -/
  nanosecond : Fin 2000000000
  deriving DecidableEq

namespace TimeOfDay

def midnight : TimeOfDay := ⟨0, 0, 0⟩

/-- The time with the given hour, minute, second and nanosecond. Second 60 is the leap second behind
second 59. -/
def of? (hour minute second nanosecond : Nat) : Option TimeOfDay :=
  if h : hour < 24 ∧ minute < 60 ∧ second < 61 ∧ nanosecond < 1000000000 then
    some ⟨⟨60 * hour + minute, by omega⟩, ⟨min second 59, by omega⟩,
      ⟨second / 60 * 1000000000 + nanosecond, by omega⟩⟩
  else none

/-- The number of the second that is written. -/
def shownSecond (t : TimeOfDay) : Nat := t.second + t.nanosecond / 1000000000

/-- The nanosecond behind the second that is written. -/
def shownNanosecond (t : TimeOfDay) : Nat := t.nanosecond % 1000000000

/-- A fraction of a second behind its point, in the fewest of three, six or nine digits; nothing
when it is zero. -/
def fractionText (nanosecond : Nat) : List Char :=
  if nanosecond = 0 then []
  else if nanosecond % 1000000 = 0 then '.' :: paddedDigits 3 (nanosecond / 1000000)
  else if nanosecond % 1000 = 0 then '.' :: paddedDigits 6 (nanosecond / 1000)
  else '.' :: paddedDigits 9 nanosecond

def text (t : TimeOfDay) : List Char :=
  paddedDigits 2 (t.minute / 60) ++ ':' :: (paddedDigits 2 (t.minute % 60) ++
    ':' :: (paddedDigits 2 t.shownSecond ++ fractionText t.shownNanosecond))

/-- A fraction of a second behind its point, in nanoseconds: one digit or more, those beyond the
ninth without effect. Without a point there is no fraction. -/
def readFraction : List Char → Option (Nat × List Char)
  | '.' :: cs =>
    let ds := cs.takeWhile Char.isDigit
    if ds.isEmpty then none
    else
      let used := ds.take 9
      some (digitsValue 0 used * Nat.pow 10 (9 - used.length), cs.dropWhile Char.isDigit)
  | cs => some (0, cs)

/-- A time in the form `HH:MM:SS` with an optional fraction, and what follows it. -/
def readFront (cs : List Char) : Option (TimeOfDay × List Char) := do
  let (hour, cs) ← readDigits 2 cs
  let cs ← readChar ':' cs
  let (minute, cs) ← readDigits 2 cs
  let cs ← readChar ':' cs
  let (second, cs) ← readDigits 2 cs
  let (nanosecond, cs) ← readFraction cs
  let time ← of? hour minute second nanosecond
  return (time, cs)

/-- A time with white space allowed before every field and every colon, and what follows it. -/
def readLenientFront (cs : List Char) : Option (TimeOfDay × List Char) := do
  let (hour, cs) ← Date.readField 2 cs
  let cs ← readChar ':' (trimStart cs)
  let (minute, cs) ← Date.readField 2 cs
  let cs ← readChar ':' (trimStart cs)
  let (second, cs) ← Date.readField 2 cs
  let (nanosecond, cs) ← readFraction cs
  let time ← of? hour minute second nanosecond
  return (time, cs)

end TimeOfDay

/-- The UTC date of a local date and minute of the day; the offset is less than a day. -/
def utcDate? (date : Date) (minute : Nat) (offset : Int) : Option Date :=
  let utc := minute - offset
  if utc < 0 then date.previous? else if 1440 ≤ utc then date.next? else some date

/-- An instant. -/
structure Timestamp where
  date : Date
  time : TimeOfDay
  /-- Minutes by which local time is ahead of UTC. -/
  offset : Int
  offset_gt : -1440 < offset
  offset_lt : offset < 1440
  utc_isSome : (utcDate? date time.minute offset).isSome
  deriving DecidableEq

namespace Timestamp

/-- The instant with the given local date, time and offset, if its UTC date is in range. -/
def of? (date : Date) (time : TimeOfDay) (offset : Int) : Option Timestamp :=
  if h : (-1440 < offset ∧ offset < 1440) ∧ (utcDate? date time.minute offset).isSome then
    some ⟨date, time, offset, h.1.1, h.1.2, h.2⟩
  else none

def ofUtc (date : Date) (time : TimeOfDay) : Timestamp :=
  ⟨date, time, 0, by decide, by decide, by
    have := time.minute.isLt
    simp only [utcDate?]
    rw [if_neg (by omega), if_neg (by omega)]
    rfl⟩

def utc (t : Timestamp) : Date × TimeOfDay :=
  ((utcDate? t.date t.time.minute t.offset).get t.utc_isSome,
    { t.time with minute := ⟨((t.time.minute - t.offset) % 1440).toNat, by omega⟩ })

/-- Two timestamps are equal when they are the same instant. -/
def sameInstant (a b : Timestamp) : Bool := a.utc == b.utc

/-- The offset as sign, hours and minutes; `zulu` writes a zero offset as `Z`. -/
def offsetText (zulu : Bool) (offset : Int) : List Char :=
  if zulu && offset == 0 then ['Z']
  else (if offset < 0 then '-' else '+') ::
    (paddedDigits 2 (offset.natAbs / 60) ++ ':' :: paddedDigits 2 (offset.natAbs % 60))

def civilText (zulu : Bool) (date : Date) (time : TimeOfDay) (offset : Int) : List Char :=
  date.text ++ 'T' :: (time.text ++ offsetText zulu offset)

/-- The text with `Z` for a zero offset. -/
def text (t : Timestamp) : List Char := civilText true t.date t.time t.offset

def numericText (t : Timestamp) : List Char := civilText false t.date t.time t.offset

/-- The text of the instant in UTC, with a numeric offset. -/
def utcText (t : Timestamp) : List Char := civilText false t.utc.1 t.utc.2 0

/-! ## Reading -/

/-- An offset in the form `Z` or `±HH:MM`, and nothing else. -/
def readOffset : List Char → Option Int
  | ['Z'] => some 0
  | sign :: cs => do
    let (hours, cs) ← readDigits 2 cs
    let cs ← readChar ':' cs
    let (minutes, cs) ← readDigits 2 cs
    if cs.isEmpty && minutes < 60 then
      if sign = '+' then some (60 * hours + minutes)
      else if sign = '-' then some (-(60 * hours + minutes))
      else none
    else none
  | [] => none

def readCivil (cs : List Char) : Option ((Date × TimeOfDay) × List Char) := do
  let (date, cs) ← Date.readFront cs
  let cs ← readChar 'T' cs
  let (time, cs) ← TimeOfDay.readFront cs
  return ((date, time), cs)

/-- What a text says about an instant. -/
inductive Reading where
  /-- An instant. -/
  | instant (t : Timestamp)
  /-- A date and a time without an offset. -/
  | naive (date : Date) (time : TimeOfDay)
  /-- Neither. -/
  | malformed

/-- Reads the exact form. -/
def read (cs : List Char) : Reading :=
  match readCivil cs with
  | none => .malformed
  | some ((date, time), []) => .naive date time
  | some ((date, time), rest) =>
    match (readOffset rest).bind (of? date time) with
    | some t => .instant t
    | none => .malformed

/-- An offset in the lenient form, and nothing but white space behind it: `Z` or `UTC` in any letter
case, or a sign, which may be the mathematical minus, two digits of hours and two of minutes, with
colons and white space allowed between them. -/
def readLenientOffset (cs : List Char) : Option Int :=
  let ending (offset : Int) (cs : List Char) : Option Int :=
    if (trimStart cs).isEmpty then some offset else none
  let numeric (sign : Int) (cs : List Char) : Option Int := do
    let (hours, cs) ← readDigits 2 cs
    let cs := cs.dropWhile fun c => c = ':' || isWhiteSpace c
    let (minutes, cs) ← readDigits 2 cs
    if minutes < 60 then ending (sign * (60 * hours + minutes)) cs else none
  if (cs.take 3).map Char.toLower = ['u', 't', 'c'] then ending 0 (cs.drop 3)
  else match cs with
    | 'Z' :: cs => ending 0 cs
    | 'z' :: cs => ending 0 cs
    | '+' :: cs => numeric 1 cs
    | '-' :: cs => numeric (-1) cs
    | '\u2212' :: cs => numeric (-1) cs
    | _ => none

/-- Reads the lenient form: white space may stand before every field, and date and time are
separated by `T`, `t` or a blank. -/
def readLenient? (cs : List Char) : Option Timestamp := do
  let (date, cs) ← Date.readLenientFront cs
  let cs ← match cs with
    | c :: cs => if c = 'T' ∨ c = 't' ∨ c = ' ' then some cs else none
    | [] => none
  let (time, cs) ← TimeOfDay.readLenientFront cs
  let offset ← readLenientOffset (trimStart cs)
  of? date time offset

end Timestamp

end FeatureFilter
