/-!
# Binary64 numbers

The numbers of the 64-bit binary format: an infinity of either sign, not-a-number, and the finite
numbers `± significand · 2 ^ scale` counted in the format's least unit `2 ^ -1074`. A finite number
has one representation: its significand has at most 53 bits, and exactly 53 unless the scale is
zero. Zero keeps its sign. Rounding to the nearest number is exact arithmetic on naturals.
-/

namespace FeatureFilter

/-- A finite number: `significand * 2 ^ scale` of the units `2 ^ -1074`, and a sign. -/
structure Finite where
  negative : Bool
  significand : Nat
  scale : Nat
  significand_lt : significand < 0x20000000000000
  scale_le : scale ≤ 2045
  normal : scale = 0 ∨ 0x10000000000000 ≤ significand
  deriving DecidableEq

namespace Finite

def zero (negative : Bool) : Finite :=
  ⟨negative, 0, 0, by decide, by decide, .inl rfl⟩

/-- The distance from zero in units of `2 ^ -1074`. -/
def units (x : Finite) : Nat := x.significand * Nat.pow 2 x.scale

/-- The number in units of `2 ^ -1074`. -/
def toInt (x : Finite) : Int := if x.negative then -(x.units : Int) else x.units

end Finite

inductive Binary64 where
  | finite (x : Finite)
  | infinity (negative : Bool)
  | nan
  deriving DecidableEq

namespace Binary64

def zero : Binary64 := .finite (.zero false)

/-- Neither an infinity nor not-a-number. -/
def isFinite : Binary64 → Bool
  | .finite _ => true
  | _ => false

def neg : Binary64 → Binary64
  | .finite x => .finite { x with negative := !x.negative }
  | .infinity negative => .infinity (!negative)
  | .nan => .nan

/-- Numeric equality: the zeros are equal, not-a-number differs from itself. -/
def beq : Binary64 → Binary64 → Bool
  | .finite x, .finite y => x.toInt == y.toInt
  | .infinity a, .infinity b => a == b
  | _, _ => false

/-- Numeric order; not-a-number is neither below nor above anything. -/
def lt : Binary64 → Binary64 → Bool
  | .finite x, .finite y => x.toInt < y.toInt
  | .finite _, .infinity b => !b
  | .infinity a, .finite _ => a
  | .infinity a, .infinity b => a && !b
  | _, _ => false

instance : BEq Binary64 := ⟨beq⟩

/-- The lesser number. Not-a-number gives way to the other one; of equal numbers the first is
taken. -/
def min (x y : Binary64) : Binary64 :=
  if x = .nan then y else if lt y x then y else x

/-- The greater number. Not-a-number gives way to the other one; of equal numbers the first is
taken. -/
def max (x y : Binary64) : Binary64 :=
  if x = .nan then y else if lt x y then y else x

/-! ## Rounding -/

/-- The natural number nearest to `n / d`; halfway between two the even one. -/
def divRound (n d : Nat) : Nat :=
  let q := n / d
  let r := n % d
  if d < 2 * r ∨ (d = 2 * r ∧ q % 2 = 1) then q + 1 else q

/-- The number `± significand * 2 ^ scale` units. What has no place among the finite numbers is
infinite. -/
def ofParts (negative : Bool) (significand scale : Nat) : Binary64 :=
  if h : significand < 0x20000000000000 ∧ scale ≤ 2045 ∧
      (scale = 0 ∨ 0x10000000000000 ≤ significand) then
    .finite ⟨negative, significand, scale, h.1, h.2.1, h.2.2⟩
  else .infinity negative

/-- The number nearest to `n / d`, `d` not zero; halfway between two the one with the even
significand. The scale is the least that leaves 53 bits before the point. -/
def ofRatio (negative : Bool) (n d : Nat) : Binary64 :=
  let units := n * Nat.pow 2 1074
  let scale := (units / d).log2 - 52
  let significand := divRound units (d * Nat.pow 2 scale)
  if significand = 0x20000000000000 then ofParts negative 0x10000000000000 (scale + 1)
  else ofParts negative significand scale

def ofInt (n : Int) : Binary64 := ofRatio (n < 0) n.natAbs 1

end Binary64

end FeatureFilter
