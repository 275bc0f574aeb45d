import FeatureFilter.Color
import FeatureFilter.Dialect
import FeatureFilter.Json
import FeatureFilter.Text.Ranges
import FeatureFilter.Text.Slice

/-!
# The JSON form of dialects

A dialect is a record. Fields that are left out are those of the standard filter language.
Extensions are written as one text: their names and, for bits without a name, a hexadecimal number,
with bars between them.
-/

namespace FeatureFilter

/-- Bits in hexadecimal: digits in either case, with an optional plus sign in front. -/
def readBits? (cs : List Char) : Option UInt8 :=
  let ds := match cs with
    | '+' :: ds => ds
    | ds => ds
  if ds.isEmpty then none
  else (readHex 0 ds).bind fun n => if n < 256 then some n.toUInt8 else none

namespace Extensions

/-- The extensions of one part of a text: a name, or bits behind `0x`. -/
def readPart? : List Char → Option Extensions
  | '0' :: 'x' :: cs => (readBits? cs).map (⟨·⟩)
  | cs => (Extension.ofName? (String.ofList cs)).map fun e => ⟨e.mask⟩

/-- The extensions of a text. White space may stand around every part. -/
def read? (cs : List Char) : Option Extensions :=
  if (trim cs).isEmpty then some empty
  else
    ((splitAtChar '|' cs).mapM fun part => readPart? (trim part)).map fun parts =>
      parts.foldl union empty

/-- The names of the extensions, and a number for the bits that are left. -/
def text (s : Extensions) : String :=
  let named := Extension.all.filter s.contains
  let rest := s.bits &&& ~~~(ofList named).bits
  let number := if rest = 0 then [] else ["0x" ++ String.ofList (hexDigits id 1 rest.toNat)]
  joined " | " (named.map Extension.name ++ number)

end Extensions

namespace Dialect

def toJson (d : Dialect) : Json :=
  .object [("name", .string d.name), ("legacy", .string d.extensions.text),
    ("color_literals", .boolean d.colorLiterals),
    ("rejected_functions", .array (d.rejectedFunctions.map .string)),
    ("max_depth", .integer d.maxDepth)]

/-- A field that has a value of its own when it is left out. -/
def readField (read : Json → Option α) (default : α) : Option Json → Option α
  | some j => read j
  | none => some default

def ofJson? (j : Json) : Option Dialect :=
  match j.record? ["name", "legacy", "color_literals", "rejected_functions", "max_depth"] with
  | some [name, extensions, colorLiterals, rejectedFunctions, maxDepth] => do
    return {
      name := ← readField Json.string? cql2.name name
      extensions :=
        ← readField (fun j => j.string?.bind fun s => Extensions.read? s.toList) cql2.extensions
          extensions
      colorLiterals := ← readField Json.boolean? cql2.colorLiterals colorLiterals
      rejectedFunctions :=
        ← readField (Json.list? Json.string?) cql2.rejectedFunctions rejectedFunctions
      maxDepth := ← readField Json.natural? cql2.maxDepth maxDepth }
  | _ => none

end Dialect

end FeatureFilter
