/-!
# Colours

A colour is a number of red, green and blue components of eight bits each, written `#RRGGBB`.
-/

namespace FeatureFilter

/-- A colour. Numbers of more than 24 bits are kept as they are. -/
structure Color where
  rgb : UInt32
  deriving DecidableEq, Repr

def hexDigitValue? (c : Char) : Option Nat :=
  if '0' ≤ c ∧ c ≤ '9' then some (c.toNat - '0'.toNat)
  else if 'a' ≤ c ∧ c ≤ 'f' then some (c.toNat - 'a'.toNat + 10)
  else if 'A' ≤ c ∧ c ≤ 'F' then some (c.toNat - 'A'.toNat + 10)
  else none

/-- The value of a run of hexadecimal digits, read on from `n`. -/
def readHex (n : Nat) : List Char → Option Nat
  | [] => some n
  | c :: cs => (hexDigitValue? c).bind fun d => readHex (16 * n + d) cs

/-- A natural number in hexadecimal: `digit` writes the digits, and zeros fill the width. -/
def hexDigits (digit : Char → Char) (width n : Nat) : List Char :=
  let ds := (Nat.toDigits 16 n).map digit
  List.replicate (width - ds.length) '0' ++ ds

namespace Color

def ofRgb (red green blue : UInt8) : Color :=
  ⟨red.toUInt32 <<< 16 ||| green.toUInt32 <<< 8 ||| blue.toUInt32⟩

def red (c : Color) : UInt8 := (c.rgb >>> 16).toUInt8

def green (c : Color) : UInt8 := (c.rgb >>> 8).toUInt8

def blue (c : Color) : UInt8 := c.rgb.toUInt8

/-- A number sign and six hexadecimal digits in either case. -/
def read? : List Char → Option Color
  | '#' :: ds => if ds.length = 6 then (readHex 0 ds).map fun n => ⟨n.toUInt32⟩ else none
  | _ => none

/-- A number sign and at least six hexadecimal digits, letters in capitals. -/
def text (c : Color) : String :=
  String.ofList ('#' :: hexDigits Char.toUpper 6 c.rgb.toNat)

end Color

end FeatureFilter
