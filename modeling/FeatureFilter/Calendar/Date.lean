import FeatureFilter.Text.Ranges
import FeatureFilter.Number.Decimal

/-!
# Dates

Days of the proleptic Gregorian calendar, their written form and two ways to read it: the exact
form `YYYY-MM-DD`, and a lenient form with blanks between the fields and years of any length.
-/

namespace FeatureFilter

/-- A natural number in decimal, with zeros in front up to a width. -/
def paddedDigits (width n : Nat) : List Char :=
  let ds := Nat.toDigits 10 n
  List.replicate (width - ds.length) '0' ++ ds

/-- Exactly `n` decimal digits, and what follows them. -/
def readDigits (n : Nat) (cs : List Char) : Option (Nat × List Char) :=
  let ds := cs.take n
  if ds.length = n ∧ ds.all Char.isDigit then some (digitsValue 0 ds, cs.drop n) else none

def readChar (c : Char) : List Char → Option (List Char)
  | d :: cs => if d = c then some cs else none
  | [] => none

def isLeapYear (year : Int) : Bool :=
  year % 4 == 0 && (year % 100 != 0 || year % 400 == 0)

/-- How many days the month has; none if there is no such month. -/
def daysInMonth (year : Int) (month : Nat) : Nat :=
  if month = 2 then (if isLeapYear year then 29 else 28)
  else if month = 4 ∨ month = 6 ∨ month = 9 ∨ month = 11 then 30
  else if 1 ≤ month ∧ month ≤ 12 then 31
  else 0

/-- A day of the calendar. Year zero is the year before year one. -/
structure Date where
  year : Int
  month : Nat
  day : Nat
  year_ge : -262143 ≤ year
  year_le : year ≤ 262142
  day_pos : 1 ≤ day
  day_le : day ≤ daysInMonth year month
  deriving DecidableEq

namespace Date

def of? (year : Int) (month day : Nat) : Option Date :=
  if h : (-262143 ≤ year ∧ year ≤ 262142) ∧ 1 ≤ day ∧ day ≤ daysInMonth year month then
    some ⟨year, month, day, h.1.1, h.1.2, h.2.1, h.2.2⟩
  else none

def next? (d : Date) : Option Date :=
  (of? d.year d.month (d.day + 1)).orElse fun _ =>
    (of? d.year (d.month + 1) 1).orElse fun _ => of? (d.year + 1) 1 1

def previous? (d : Date) : Option Date :=
  (of? d.year d.month (d.day - 1)).orElse fun _ =>
    (of? d.year (d.month - 1) (daysInMonth d.year (d.month - 1))).orElse fun _ =>
      of? (d.year - 1) 12 31

/-- The year in four digits; outside the years 0 to 9999 with a sign and at least four digits. -/
def yearText (year : Int) : List Char :=
  if 0 ≤ year ∧ year ≤ 9999 then paddedDigits 4 year.toNat
  else (if year < 0 then '-' else '+') :: paddedDigits 4 year.natAbs

def text (d : Date) : List Char :=
  yearText d.year ++ '-' :: (paddedDigits 2 d.month ++ '-' :: paddedDigits 2 d.day)

/-- A date in the form `YYYY-MM-DD`, and what follows it. -/
def readFront (cs : List Char) : Option (Date × List Char) := do
  let (year, cs) ← readDigits 4 cs
  let cs ← readChar '-' cs
  let (month, cs) ← readDigits 2 cs
  let cs ← readChar '-' cs
  let (day, cs) ← readDigits 2 cs
  let date ← of? year month day
  return (date, cs)

def read? (cs : List Char) : Option Date := do
  let (date, rest) ← readFront cs
  if rest.isEmpty then some date else none

/-! ## The lenient form -/

/-- One to `most` digits behind white space, as many as there are. -/
def readField (most : Nat) (cs : List Char) : Option (Nat × List Char) :=
  let cs := trimStart cs
  let ds := (cs.take most).takeWhile Char.isDigit
  if ds.isEmpty then none else some (digitsValue 0 ds, cs.drop ds.length)

/-- A year behind white space: up to four digits, or a sign and any number of them. -/
def readYear (cs : List Char) : Option (Int × List Char) :=
  let signed (sign : Int) (cs : List Char) : Option (Int × List Char) :=
    let ds := cs.takeWhile Char.isDigit
    if ds.isEmpty then none else some (sign * digitsValue 0 ds, cs.dropWhile Char.isDigit)
  match trimStart cs with
  | '-' :: cs => signed (-1) cs
  | '+' :: cs => signed 1 cs
  | cs => (readField 4 cs).map fun (n, rest) => (n, rest)

/-- A date with white space allowed before every field and every hyphen, and what follows it. -/
def readLenientFront (cs : List Char) : Option (Date × List Char) := do
  let (year, cs) ← readYear cs
  let cs ← readChar '-' (trimStart cs)
  let (month, cs) ← readField 2 cs
  let cs ← readChar '-' (trimStart cs)
  let (day, cs) ← readField 2 cs
  let date ← of? year month day
  return (date, cs)

/-- A date with white space allowed before every field and every hyphen, and at the end. -/
def readLenient? (cs : List Char) : Option Date := do
  let (date, rest) ← readLenientFront cs
  if (trimStart rest).isEmpty then some date else none

end Date

end FeatureFilter
