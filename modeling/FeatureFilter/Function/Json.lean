import FeatureFilter.Filter.Json
import FeatureFilter.Function.Catalog
import FeatureFilter.Json.Reader

/-!
# The JSON form of signatures

A signature is a record. A function gives a value unless its kind says otherwise, and takes any
number of arguments when the greatest number is left out. A table of functions is a text that is an
array of signatures.
-/

namespace FeatureFilter

namespace FunctionKind

def toJson : FunctionKind → Json
  | generic => .string "generic"
  | predicate (.spatial op) => .tagged "spatial" (.string op.tag)
  | predicate (.temporal op) => .tagged "temporal" (.string op.tag)

def ofJson? (j : Json) : Option FunctionKind :=
  match j.tagged? with
  | some ("spatial", p) =>
    (p.choice? SpatialOp.all SpatialOp.tag).map fun op => predicate (.spatial op)
  | some ("temporal", p) =>
    (p.choice? TemporalOp.all TemporalOp.tag).map fun op => predicate (.temporal op)
  | _ => j.choice? [generic] fun _ => "generic"

end FunctionKind

namespace Signature

def toJson (s : Signature) : Json :=
  .object [("name", .string s.name), ("kind", s.kind.toJson), ("min_args", .integer s.minArgs),
    ("max_args", Json.ofOption (fun n => .integer n) s.maxArgs)]

def ofJson? (j : Json) : Option Signature :=
  match j.record? ["name", "kind", "min_args", "max_args"] with
  | some [some name, kind, some minArgs, maxArgs] => do
    return {
      name := ← name.string?
      kind := ← FunctionKind.ofJson? (kind.getD (.string "generic"))
      minArgs := ← minArgs.natural?
      maxArgs := ← (maxArgs.getD .null).nullable? Json.natural? }
  | _ => none

end Signature

/-- Why a table of functions cannot be added to a catalog. -/
inductive TableError where
  /-- The text is no array of signatures. -/
  | malformed
  | invalidSignature (e : SignatureError)
  deriving DecidableEq, Repr

namespace Catalog

def readTable? (text : String) : Option (List Signature) :=
  (Json.read? text).bind fun j => j.list? Signature.ofJson?

/-- Adds all functions of a table, or none of them. -/
def extendFromTable (c : Catalog) (text : String) : Except TableError Catalog :=
  match readTable? text with
  | none => .error .malformed
  | some ss => (c.extend ss).mapError .invalidSignature

end Catalog

end FeatureFilter
