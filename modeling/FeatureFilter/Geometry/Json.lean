import FeatureFilter.Geometry
import FeatureFilter.Json

/-!
# The JSON form of geometries

A geometry is tagged with its type. A coordinate is a record of its ordinates; the height may be
null or left out.
-/

namespace FeatureFilter

/-- A number, or null when it is not finite. -/
def Binary64.toJson (x : Binary64) : Json := if x.isFinite then .real x else .null

namespace Coord

def toJson (c : Coord) : Json :=
  .object [("x", c.x.toJson), ("y", c.y.toJson), ("z", Json.ofOption Binary64.toJson c.z)]

def ofOrdinates? (x y z : Json) : Option Coord := do
  return ⟨← x.number?, ← y.number?, ← z.nullable? Json.number?⟩

/-- A record of the ordinates, or an array of all three. -/
def ofJson? : Json → Option Coord
  | .array [x, y, z] => ofOrdinates? x y z
  | j =>
    match j.fields? ["x", "y", "z"] with
    | some [some x, some y, z] => ofOrdinates? x y (z.getD .null)
    | _ => none

end Coord

namespace Geometry

def lineJson (cs : List Coord) : Json := .array (cs.map Coord.toJson)

def ringsJson (rings : List (List Coord)) : Json := .array (rings.map lineJson)

mutual

def toJson : Geometry → Json
  | point c => .tagged "Point" (Json.ofOption Coord.toJson c)
  | lineString cs => .tagged "LineString" (lineJson cs)
  | polygon rings => .tagged "Polygon" (ringsJson rings)
  | multiPoint cs => .tagged "MultiPoint" (lineJson cs)
  | multiLineString lines => .tagged "MultiLineString" (ringsJson lines)
  | multiPolygon polygons => .tagged "MultiPolygon" (.array (polygons.map ringsJson))
  | collection members => .tagged "GeometryCollection" (.array (toJsonAll members))

def toJsonAll : List Geometry → List Json
  | [] => []
  | g :: gs => g.toJson :: toJsonAll gs

end

def readLine (j : Json) : Option (List Coord) := j.list? Coord.ofJson?

def readRings (j : Json) : Option (List (List Coord)) := j.list? readLine

/-- A geometry whose members, if it is a collection, are read by `member`. -/
def ofJsonOver (member : Json → Option Geometry) (j : Json) : Option Geometry :=
  match j.tagged? with
  | some ("Point", p) => (p.nullable? Coord.ofJson?).map point
  | some ("LineString", p) => (readLine p).map lineString
  | some ("Polygon", p) => (readRings p).map polygon
  | some ("MultiPoint", p) => (readLine p).map multiPoint
  | some ("MultiLineString", p) => (readRings p).map multiLineString
  | some ("MultiPolygon", p) => (p.list? readRings).map multiPolygon
  | some ("GeometryCollection", p) => (p.list? member).map collection
  | _ => none

/-- A geometry with collections at most `n` deep inside each other. -/
def ofJsonWithin : Nat → Json → Option Geometry
  | 0 => fun _ => none
  | n + 1 => ofJsonOver (ofJsonWithin n)

def ofJson? (j : Json) : Option Geometry := ofJsonWithin j.depth j

end Geometry

end FeatureFilter
