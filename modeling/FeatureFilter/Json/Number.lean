import FeatureFilter.Json
import FeatureFilter.Number.Decimal

/-!
# Numbers of a JSON text

Whole numbers of 64 bits, signed or unsigned, are kept as they are. All other numbers are rounded in
three steps: the first digits, as many as 64 bits hold, are rounded to a binary64 number, so is a
power of ten, and so is the product or quotient of the two. Up to `2 ^ 53` and `10 ^ 22` the first
two steps are exact, and the result is the nearest number.
-/

namespace FeatureFilter

namespace Json

/-- Reads digits on from `n` as long as the number fits into 64 bits; the digits left over. -/
def takeDigits (n : Nat) : List Char → Nat × List Char
  | [] => (n, [])
  | d :: ds =>
    let next := 10 * n + (d.toNat - '0'.toNat)
    if next < 0x10000000000000000 then takeDigits next ds else (n, d :: ds)

/-- The power of ten rounded to 53 bits. -/
def roundedPower (k : Nat) : Nat :=
  let power := Nat.pow 10 k
  let unit := Nat.pow 2 (power.log2 - 52)
  Binary64.divRound power unit * unit

/-- A number times a power of ten; `10 ^ 309` is out of range. -/
def timesPower (k : Nat) : Binary64 → Binary64
  | .finite x =>
    if 308 < k then .infinity x.negative
    else .ofRatio x.negative (x.units * roundedPower k) (Nat.pow 2 1074)
  | x => x

/-- A number divided by a power of ten. -/
def overPower (k : Nat) : Binary64 → Binary64
  | .finite x => .ofRatio x.negative x.units (roundedPower k * Nat.pow 2 1074)
  | x => x

/-- A number divided by a power of ten, by no more than `10 ^ 308` at a time. -/
def overPowers (k : Nat) (x : Binary64) : Binary64 :=
  if x == .zero then x
  else if k ≤ 308 then overPower k x
  else overPowers (k - 308) (overPower 308 x)
termination_by k

/-- A number of some digits times a power of ten, rounded in three steps. -/
def scaled (negative : Bool) (digits : Nat) (exponent : Int) : Binary64 :=
  let x := Binary64.ofRatio negative digits 1
  if x == .zero then x
  else if 0 ≤ exponent then timesPower exponent.toNat x
  else overPowers (-exponent).toNat x

/-- The number with the given digits before and behind the point and the given exponent. -/
def realOf (negative : Bool) (whole fraction : List Char) (exponent : Int) : Binary64 :=
  let (n, left) := takeDigits 0 whole
  let (n, unused) := takeDigits n fraction
  scaled negative n (exponent + left.length - (fraction.length - unused.length))

/-- A number without point and exponent. Zero with a sign is not a whole number. -/
def ofDigits (negative : Bool) (digits : List Char) : Json :=
  let n := digitsValue 0 digits
  if negative then
    if 0 < n ∧ n ≤ 0x8000000000000000 then integer (-(n : Int)) else real (realOf true digits [] 0)
  else if n < 0x10000000000000000 then integer n
  else real (realOf false digits [] 0)

/-- An exponent at the front, and what follows it; absent when no exponent letter comes next. -/
def splitExponent? : List Char → Option (Option Int × List Char)
  | c :: cs =>
    if c = 'e' ∨ c = 'E' then
      let (negative, body) := Decimal.splitSign cs
      let ds := body.takeWhile Char.isDigit
      if ds.isEmpty then none
      else
        let n : Int := digitsValue 0 ds
        some (some (if negative then -n else n), body.dropWhile Char.isDigit)
    else some (none, c :: cs)
  | [] => some (none, [])

/-- A number at the front, and what follows it. The digits before the point start with a zero only
if it is the only one. -/
def splitNumber? (cs : List Char) : Option (Json × List Char) := do
  let (negative, body) := match cs with
    | '-' :: cs => (true, cs)
    | cs => (false, cs)
  let whole := body.takeWhile Char.isDigit
  if whole.isEmpty || (whole.head? = some '0' && whole.length ≠ 1) then none
  else
    match body.dropWhile Char.isDigit with
    | '.' :: rest =>
      let fraction := rest.takeWhile Char.isDigit
      if fraction.isEmpty then none
      else
        let (exponent, rest) ← splitExponent? (rest.dropWhile Char.isDigit)
        return (real (realOf negative whole fraction (exponent.getD 0)), rest)
    | rest =>
      let (exponent, rest) ← splitExponent? rest
      match exponent with
      | some e => return (real (realOf negative whole [] e), rest)
      | none => return (ofDigits negative whole, rest)

end Json

end FeatureFilter
