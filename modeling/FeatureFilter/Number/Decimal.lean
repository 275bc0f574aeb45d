import FeatureFilter.Number.Binary64

/-!
# Decimal numerals

Reading decimal text: whole numbers of 64 bits, and binary64 numbers, each the one nearest to the
decimal value that is written.
-/

namespace FeatureFilter

/-- The value of a run of decimal digits, read on from `n`. -/
def digitsValue (n : Nat) (cs : List Char) : Nat :=
  cs.foldl (fun n c => 10 * n + (c.toNat - '0'.toNat)) n

/-- A number in decimal form: `digits * 10 ^ exponent` and a sign. -/
structure Decimal where
  negative : Bool
  digits : Nat
  exponent : Int
  deriving DecidableEq, Repr

namespace Decimal

/-- How many decimal digits a natural number has; none for zero. -/
def digitCount (n : Nat) : Nat :=
  if n = 0 then 0 else (Nat.toDigits 10 n).length

/-- The nearest binary64 number. Values from `10 ^ 310` on are infinite and values below
`10 ^ -330` are zero, whatever their digits. -/
def toBinary64 (x : Decimal) : Binary64 :=
  let size := (digitCount x.digits : Int) + x.exponent
  if x.digits = 0 ∨ size < -330 then .finite (.zero x.negative)
  else if 310 < size then .infinity x.negative
  else .ofRatio x.negative (x.digits * Nat.pow 10 x.exponent.toNat) (Nat.pow 10 (-x.exponent).toNat)

/-- Splits an optional sign off the front; true for minus. -/
def splitSign : List Char → Bool × List Char
  | '-' :: cs => (true, cs)
  | '+' :: cs => (false, cs)
  | cs => (false, cs)

/-- An exponent behind its letter: an optional sign and at least one digit, and nothing else. -/
def readExponent (cs : List Char) : Option Int :=
  let (negative, ds) := splitSign cs
  if ds.isEmpty || !ds.all Char.isDigit then none
  else some (if negative then -(digitsValue 0 ds : Int) else digitsValue 0 ds)

/-- What follows the digits of a numeral: nothing, or an exponent. -/
def readTail : List Char → Option Int
  | [] => some 0
  | c :: cs => if c = 'e' ∨ c = 'E' then readExponent cs else none

/-- An unsigned numeral: digits with at most one point among, before or behind them, at least one
digit in all, then an optional exponent. -/
def readUnsigned (negative : Bool) (cs : List Char) : Option Decimal :=
  let whole := cs.takeWhile Char.isDigit
  match cs.dropWhile Char.isDigit with
  | '.' :: rest =>
    let fraction := rest.takeWhile Char.isDigit
    if whole.isEmpty && fraction.isEmpty then none
    else (readTail (rest.dropWhile Char.isDigit)).map fun e =>
      ⟨negative, digitsValue (digitsValue 0 whole) fraction, e - fraction.length⟩
  | rest =>
    if whole.isEmpty then none
    else (readTail rest).map fun e => ⟨negative, digitsValue 0 whole, e⟩

end Decimal

/-- The binary64 number that a text writes: a decimal numeral, or `inf`, `infinity` or `nan` in any
letter case, each with an optional sign. -/
def Binary64.read? (cs : List Char) : Option Binary64 :=
  let (negative, body) := Decimal.splitSign cs
  let word := body.map Char.toLower
  if word = "inf".toList ∨ word = "infinity".toList then some (.infinity negative)
  else if word = "nan".toList then some .nan
  else (Decimal.readUnsigned negative body).map Decimal.toBinary64

/-- The 64-bit whole number that a text writes: an optional sign and at least one digit. Numbers
outside the range have no reading. -/
def readInt64? (cs : List Char) : Option Int64 :=
  let (negative, ds) := Decimal.splitSign cs
  if ds.isEmpty || !ds.all Char.isDigit then none
  else
    let n : Int := if negative then -(digitsValue 0 ds : Int) else digitsValue 0 ds
    if -0x8000000000000000 ≤ n ∧ n ≤ 0x7FFFFFFFFFFFFFFF then some (Int64.ofInt n) else none

end FeatureFilter
