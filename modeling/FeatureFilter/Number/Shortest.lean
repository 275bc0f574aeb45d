import FeatureFilter.Number.Decimal

/-!
# Shortest decimal text

A binary64 number is written with the fewest decimal digits that read back as the same number. The
numbers that read back as `x` form an interval around `x`; the digits are those of the coarsest
decimal grid that has a point in it. A `Layout` says where the point stands and when an exponent is
written.
-/

namespace FeatureFilter

namespace Finite

/-- The interval of the reals that round to a positive number, in quarters of the least unit:
lower end, number, upper end. Below a power of two the neighbours are twice as near. The ends
themselves belong to it when the significand is even. -/
def interval (x : Finite) : Nat × Nat × Nat :=
  let step := Nat.pow 2 x.scale
  let below := if x.significand = 0x10000000000000 ∧ 0 < x.scale then step else 2 * step
  let centre := 4 * x.significand * step
  (centre - below, centre, centre + 2 * step)

/-- Whether the decimal `t * 10 ^ k` rounds to the number. -/
def admits (x : Finite) (t : Nat) (k : Int) : Bool :=
  let (lower, _, upper) := x.interval
  let point := t * Nat.pow 10 k.toNat * Nat.pow 2 1076
  let scale := Nat.pow 10 (-k).toNat
  if x.significand % 2 = 0 then lower * scale ≤ point && point ≤ upper * scale
  else lower * scale < point && point < upper * scale

/-- The multiple of `10 ^ k` nearest to the number among those that round to it. Of two equally
near ones the greater is taken. -/
def onGrid (x : Finite) (k : Int) : Option Nat :=
  let unit := Nat.pow 10 k.toNat * Nat.pow 2 1076
  let value := x.interval.2.1 * Nat.pow 10 (-k).toNat
  let t := value / unit
  match x.admits t k, x.admits (t + 1) k with
  | true, true => if value - t * unit < (t + 1) * unit - value then some t else some (t + 1)
  | true, false => some t
  | false, true => some (t + 1)
  | false, false => none

/-- The first of the grids `10 ^ k`, `10 ^ (k - 1)`, … that has a point rounding to the number. -/
def onGrids (x : Finite) (k : Int) : Nat → Decimal
  | 0 => ⟨x.negative, (x.onGrid k).getD 0, k⟩
  | n + 1 =>
    match x.onGrid k with
    | some t => ⟨x.negative, t, k⟩
    | none => x.onGrids (k - 1) n

/-- The decimal with the fewest digits that rounds to the number. The search starts above the
number: `30103 / 100000` exceeds the decimal logarithm of two. -/
def shortest (x : Finite) : Decimal :=
  if x.significand = 0 then ⟨x.negative, 0, 0⟩
  else
    let size : Int := x.significand.log2 + x.scale - 1074
    x.onGrids (size * 30103 / 100000 + 2) 22

end Finite

/-- How a number is laid out. -/
structure Layout where
  /-- The powers of ten, first and last, of leading digits written without exponent; all when
  absent. -/
  positional : Option (Int × Int)
  /-- Whole numbers without exponent end in `.0`. -/
  keepsPoint : Bool

namespace Layout

/-- Number literals show that they are not whole numbers, and use an exponent from `10 ^ 16` on and
below `10 ^ -4`. -/
def literal : Layout := ⟨some (-4, 15), true⟩

/-- Ordinates of a geometry never use an exponent and have no idle point. -/
def ordinate : Layout := ⟨none, false⟩

/-- Digits with the point behind the first `place` of them, filled with zeros where digits are
missing. -/
def positionalText (l : Layout) (ds : List Char) (place : Int) : List Char :=
  if place ≤ 0 then '0' :: '.' :: (List.replicate (-place).toNat '0' ++ ds)
  else
    let n := place.toNat
    if ds.length ≤ n then
      ds ++ List.replicate (n - ds.length) '0' ++ (if l.keepsPoint then ['.', '0'] else [])
    else ds.take n ++ '.' :: ds.drop n

/-- Digits with the point behind the first and an exponent. -/
def exponentText (ds : List Char) (exponent : Int) : List Char :=
  let mantissa := match ds with
    | d :: e :: es => d :: '.' :: e :: es
    | ds => ds
  mantissa ++ 'e' :: (toString exponent).toList

def decimalText (l : Layout) (x : Decimal) : List Char :=
  let ds := Nat.toDigits 10 x.digits
  let place : Int := ds.length + x.exponent
  let body :=
    if x.digits = 0 then (if l.keepsPoint then ['0', '.', '0'] else ['0'])
    else match l.positional with
      | none => l.positionalText ds place
      | some (first, last) =>
        if first ≤ place - 1 ∧ place - 1 ≤ last then l.positionalText ds place
        else exponentText ds (place - 1)
  if x.negative then '-' :: body else body

def text (l : Layout) : Binary64 → String
  | .finite x => String.ofList (l.decimalText x.shortest)
  | .infinity negative => if negative then "-inf" else "inf"
  | .nan => "NaN"

end Layout

end FeatureFilter
