import FeatureFilter.Text.Caseless

/-!
# Dialects

A dialect says which texts are read as filters: which extensions of older dialects it allows, which
function names it refuses, whether strings like `#RRGGBB` are colours, and how deep a filter may be
nested.
-/

namespace FeatureFilter

inductive Extension where
  /-- Grouping with square brackets. -/
  | bracketGrouping
  /-- `ILIKE`, which matches without regard to case. -/
  | ilike
  /-- Timestamps without an offset, which are read as UTC. -/
  | naiveTimestamps
  deriving DecidableEq, Repr

namespace Extension

def all : List Extension := [bracketGrouping, ilike, naiveTimestamps]

def name : Extension → String
  | bracketGrouping => "BRACKET_GROUPING"
  | ilike => "ILIKE"
  | naiveTimestamps => "NAIVE_TIMESTAMPS"

def mask : Extension → UInt8
  | bracketGrouping => 1
  | ilike => 2
  | naiveTimestamps => 4

def ofName? (name : String) : Option Extension := all.find? fun e => e.name == name

end Extension

/-- A set of extensions, one bit for each. Bits without a meaning are kept. -/
structure Extensions where
  bits : UInt8
  deriving DecidableEq, Repr

namespace Extensions

def empty : Extensions := ⟨0⟩

def contains (s : Extensions) (e : Extension) : Bool := s.bits &&& e.mask == e.mask

def union (s t : Extensions) : Extensions := ⟨s.bits ||| t.bits⟩

def ofList (es : List Extension) : Extensions := ⟨es.foldl (fun bits e => bits ||| e.mask) 0⟩

end Extensions

/-- What is read as a filter. -/
structure Dialect where
  name : String
  extensions : Extensions
  /-- Strings like `#RRGGBB` are colours. -/
  colorLiterals : Bool
  /-- Function names that cannot be called, in any letter case. -/
  rejectedFunctions : List String
  /-- How many groups, negations, signs and argument lists may stand inside each other. -/
  maxDepth : Nat
  deriving DecidableEq, Repr

namespace Dialect

/-- The filter language of the standard, without extensions. -/
def cql2 : Dialect :=
  ⟨"cql2", .empty, true, ["BBOX", "RELATE", "DWITHIN", "BEYOND"], 100⟩

def allows (d : Dialect) (e : Extension) : Bool := d.extensions.contains e

def rejects (d : Dialect) (name : String) : Bool :=
  d.rejectedFunctions.any fun f => sameWord f name

end Dialect

/-! ## Words with a meaning -/

/-- What to write instead of a word of older dialects. -/
def legacyHints : List (String × String) :=
  [("eq", "use '=' instead of 'eq'"),
    ("neq", "use '<>' instead of 'neq'"),
    ("lt", "use '<' instead of 'lt'"),
    ("lte", "use '<=' instead of 'lte'"),
    ("gt", "use '>' instead of 'gt'"),
    ("gte", "use '>=' instead of 'gte'"),
    ("ilike", "ILIKE is not part of CQL2; use LIKE with casei()"),
    ("exists", "EXISTS is not part of CQL2; use PropertyExists()"),
    ("does", "DOES-NOT-EXIST is not part of CQL2"),
    ("before", "use T_BEFORE(a, b)"),
    ("after", "use T_AFTER(a, b)"),
    ("during", "use T_DURING(a, b)"),
    ("tequals", "use T_EQUALS(a, b)")]

def legacyHint? (word : String) : Option String :=
  (legacyHints.find? fun (w, _) => sameWord w word).map (·.2)

/-- The words that start a geometry. -/
def geometryWords : List String :=
  ["POINT", "LINESTRING", "POLYGON", "MULTIPOINT", "MULTILINESTRING", "MULTIPOLYGON",
    "GEOMETRYCOLLECTION"]

def isGeometryWord (word : String) : Bool := geometryWords.any (sameWord · word)

/-- The words that may stand between the type of a geometry and its coordinates. -/
def isGeometryTag (word : String) : Bool := ["EMPTY", "Z", "M", "ZM"].any (sameWord · word)

/-- Whether a function name is of the family of spatial or temporal predicates. -/
def isPredicateName (name : String) : Bool :=
  let family := (name.toList.take 2).map Char.toUpper
  family = ['S', '_'] || family = ['T', '_']

end FeatureFilter
