import FeatureFilter.Geometry
import FeatureFilter.Text.Ranges

/-!
# Reading well-known text

Reads the well-known text of a geometry: the name of its type in any letter case, an optional `Z`,
then `EMPTY` or the coordinates in parentheses. White space may stand before every word, number and
mark. The points of a `MULTIPOINT` may have parentheses of their own.
-/

namespace FeatureFilter

namespace Wkt

inductive Error where
  | unknownGeometryType (name : String)
  | unsupportedOrdinates (tag : String)
  | unexpectedToken (expected found : String) (position : Nat)
  | invalidNumber (text : String)
  | trailingInput (position : Nat)
  deriving DecidableEq, Repr

def Error.message : Error → String
  | unknownGeometryType name => "unknown geometry type '" ++ name ++ "'"
  | unsupportedOrdinates tag =>
    "unsupported ordinates '" ++ tag ++ "': only XY and XYZ coordinates are accepted"
  | unexpectedToken expected found position =>
    "expected " ++ expected ++ " at offset " ++ toString position ++ ", found " ++ found
  | invalidNumber text => "invalid number '" ++ text ++ "'"
  | trailingInput position => "unexpected input after geometry at offset " ++ toString position

/-- What is left of a text, and the byte offset at which it starts. -/
structure Input where
  offset : Nat
  chars : List Char

/-- Reads something off the front of the input. -/
abbrev Reader := StateT Input (Except Error)

def byteLength : List Char → Nat
  | [] => 0
  | c :: cs => c.utf8Size + byteLength cs

def take (n : Nat) : Reader (List Char) := fun i =>
  .ok (i.chars.take n, ⟨i.offset + byteLength (i.chars.take n), i.chars.drop n⟩)

def skipSpace : Reader Unit := fun i =>
  .ok ((), ⟨i.offset + byteLength (i.chars.takeWhile isWhiteSpace), trimStart i.chars⟩)

def peek : Reader (Option Char) := do
  skipSpace
  return (← get).chars.head?

/-- Fails at the next character, naming what should stand there. -/
def failHere (expected : String) (position : Option Nat) : Reader α := do
  let found := match ← peek with
    | some c => "'" ++ toString c ++ "'"
    | none => "end of input"
  let i ← get
  throw (.unexpectedToken expected found (position.getD i.offset))

def eat (c : Char) : Reader Bool := do
  if (← peek) = some c then
    let _ ← take 1
    return true
  else
    return false

def expect (c : Char) : Reader Unit := do
  unless ← eat c do
    failHere ("'" ++ toString c ++ "'") none

/-- The run of ASCII letters that comes next; it may be empty. -/
def peekWord : Reader (List Char) := do
  skipSpace
  return (← get).chars.takeWhile Char.isAlpha

/-! ## Numbers -/

/-- The longest run of digits, points, exponent letters, and signs at the start or right behind an
exponent letter. `signed` says whether a sign may come next. -/
def numberRun (signed : Bool) : List Char → List Char
  | [] => []
  | c :: cs =>
    if c.isDigit || c = '.' then c :: numberRun false cs
    else if c = 'e' || c = 'E' then c :: numberRun true cs
    else if signed && (c = '-' || c = '+') then c :: numberRun false cs
    else []

def number : Reader Binary64 := do
  skipSpace
  let run := numberRun true (← get).chars
  if run.isEmpty then failHere "number" none
  else
    match Binary64.read? run with
    | none => throw (.invalidNumber (String.ofList run))
    | some x =>
      let _ ← take run.length
      return x

def startsNumber : Option Char → Bool
  | some c => c.isDigit || c = '-' || c = '+' || c = '.'
  | none => false

/-- Two numbers, or three when a third one follows. -/
def coord : Reader Coord := do
  let x ← number
  let y ← number
  if startsNumber (← peek) then
    let z ← number
    return ⟨x, y, some z⟩
  else
    return ⟨x, y, none⟩

/-! ## Lists -/

/-- Items behind commas, at most `n`. -/
def moreItems (item : Reader α) : Nat → Reader (List α)
  | 0 => return []
  | n + 1 => do
    if ← eat ',' then
      let a ← item
      return a :: (← moreItems item n)
    else
      return []

/-- One or more items in parentheses with commas between them. Every comma takes a character, so
that there are no more items than characters. -/
def listOf (item : Reader α) : Reader (List α) := do
  expect '('
  let a ← item
  let as ← moreItems item (← get).chars.length
  expect ')'
  return a :: as

def line : Reader (List Coord) := listOf coord

def rings : Reader (List (List Coord)) := listOf line

def memberPoint : Reader Coord := do
  if ← eat '(' then
    let c ← coord
    expect ')'
    return c
  else
    coord

/-! ## Geometries -/

/-- Takes the tag of the ordinates and the word `EMPTY`, each if it comes next. True when the
geometry is empty. -/
def header : Reader Bool := do
  let tag ← peekWord
  let name := tag.map Char.toUpper
  if name = ['Z'] then
    let _ ← take 1
  else if name = ['M'] ∨ name = ['Z', 'M'] then
    throw (.unsupportedOrdinates (String.ofList tag))
  let word ← peekWord
  if word.map Char.toUpper = "EMPTY".toList then
    let _ ← take word.length
    return true
  else
    return false

/-- What stands behind the name of the type. -/
def body (member : Reader Geometry) (name : String) (empty : Bool) : Reader Geometry :=
  match name with
  | "POINT" =>
    if empty then return .point none
    else do
      expect '('
      let c ← coord
      expect ')'
      return .point (some c)
  | "LINESTRING" => if empty then return .lineString [] else return .lineString (← line)
  | "POLYGON" => if empty then return .polygon [] else return .polygon (← rings)
  | "MULTIPOINT" =>
    if empty then return .multiPoint [] else return .multiPoint (← listOf memberPoint)
  | "MULTILINESTRING" =>
    if empty then return .multiLineString [] else return .multiLineString (← rings)
  | "MULTIPOLYGON" =>
    if empty then return .multiPolygon [] else return .multiPolygon (← listOf rings)
  | "GEOMETRYCOLLECTION" =>
    if empty then return .collection [] else return .collection (← listOf member)
  | _ => throw (.unknownGeometryType name)

/-- A geometry whose members, if it is a collection, are read by `member`. -/
def geometryOf (member : Reader Geometry) : Reader Geometry := do
  let start := (← get).offset
  let word ← peekWord
  if word.isEmpty then failHere "geometry type" (some start)
  else
    let _ ← take word.length
    let empty ← header
    body member (String.ofList (word.map Char.toUpper)) empty

/-- A geometry with collections nested at most `n` deep. -/
def geometry : Nat → Reader Geometry
  | 0 => geometryOf (failHere "geometry type" none)
  | n + 1 => geometryOf (geometry n)

/-- Reads a text that is one geometry. A collection takes characters before its members, so that
collections do not nest deeper than the text is long. -/
def read (text : String) : Except Error Geometry := do
  let cs := text.toList
  let (g, rest) ← geometry cs.length ⟨0, cs⟩
  let ((), rest) ← skipSpace rest
  if rest.chars.isEmpty then return g else throw (.trailingInput rest.offset)

end Wkt

end FeatureFilter
