import FeatureFilter.Number.Shortest
import FeatureFilter.Text.Slice

/-!
# Geometries

The geometry literals of a filter: coordinates grouped as the well-known text of each type groups
them, with the text that writes them and the box around them.
-/

namespace FeatureFilter

/-- A coordinate with an optional height. -/
structure Coord where
  x : Binary64
  y : Binary64
  z : Option Binary64
  deriving DecidableEq

inductive Geometry where
  | point (coord : Option Coord)
  | lineString (coords : List Coord)
  | polygon (rings : List (List Coord))
  | multiPoint (coords : List Coord)
  | multiLineString (lines : List (List Coord))
  | multiPolygon (polygons : List (List (List Coord)))
  | collection (members : List Geometry)

/-- A box: least and greatest ordinates. -/
structure Bounds where
  minX : Binary64
  minY : Binary64
  maxX : Binary64
  maxY : Binary64
  deriving DecidableEq

namespace Coord

def text (c : Coord) : String :=
  let flat := Layout.ordinate.text c.x ++ " " ++ Layout.ordinate.text c.y
  match c.z with
  | some z => flat ++ " " ++ Layout.ordinate.text z
  | none => flat

/-- Numeric equality, ordinate by ordinate. -/
def beq (a b : Coord) : Bool := a.x == b.x && a.y == b.y && a.z == b.z

instance : BEq Coord := ⟨beq⟩

end Coord

namespace Bounds

def ofCoord (c : Coord) : Bounds := ⟨c.x, c.y, c.x, c.y⟩

/-- The box grown to hold one more coordinate. -/
def extend (b : Bounds) (c : Coord) : Bounds :=
  ⟨b.minX.min c.x, b.minY.min c.y, b.maxX.max c.x, b.maxY.max c.y⟩

end Bounds

def listText (items : List String) : String := "(" ++ joined "," items ++ ")"

namespace Geometry

/-- The rectangle with the given sides, from its south-west corner north and around. -/
def envelope (west south east north : Binary64) : Geometry :=
  .polygon [[⟨west, south, none⟩, ⟨west, north, none⟩, ⟨east, north, none⟩, ⟨east, south, none⟩,
    ⟨west, south, none⟩]]

def typeName : Geometry → String
  | point _ => "POINT"
  | lineString _ => "LINESTRING"
  | polygon _ => "POLYGON"
  | multiPoint _ => "MULTIPOINT"
  | multiLineString _ => "MULTILINESTRING"
  | multiPolygon _ => "MULTIPOLYGON"
  | collection _ => "GEOMETRYCOLLECTION"

/-- Whether the geometry is written `EMPTY`. A collection of empty geometries is not. -/
def isEmpty : Geometry → Bool
  | point c => c.isNone
  | lineString cs | multiPoint cs => cs.isEmpty
  | polygon rings | multiLineString rings => rings.isEmpty
  | multiPolygon polygons => polygons.isEmpty
  | collection members => members.isEmpty

mutual

def coords : Geometry → List Coord
  | point c => c.toList
  | lineString cs | multiPoint cs => cs
  | polygon rings | multiLineString rings => rings.flatten
  | multiPolygon polygons => polygons.flatten.flatten
  | collection members => coordsAll members

def coordsAll : List Geometry → List Coord
  | [] => []
  | g :: gs => g.coords ++ coordsAll gs

end

def bounds (g : Geometry) : Option Bounds :=
  match g.coords with
  | [] => none
  | c :: cs => some (cs.foldl Bounds.extend (.ofCoord c))

def lineText (cs : List Coord) : String := listText (cs.map Coord.text)

def ringsText (rings : List (List Coord)) : String := listText (rings.map lineText)

mutual

def text : Geometry → String
  | point none => "POINT EMPTY"
  | point (some c) => "POINT(" ++ c.text ++ ")"
  | lineString cs => if cs.isEmpty then "LINESTRING EMPTY" else "LINESTRING" ++ lineText cs
  | polygon rings => if rings.isEmpty then "POLYGON EMPTY" else "POLYGON" ++ ringsText rings
  | multiPoint cs =>
    if cs.isEmpty then "MULTIPOINT EMPTY"
    else "MULTIPOINT" ++ listText (cs.map fun c => "(" ++ c.text ++ ")")
  | multiLineString lines =>
    if lines.isEmpty then "MULTILINESTRING EMPTY" else "MULTILINESTRING" ++ ringsText lines
  | multiPolygon polygons =>
    if polygons.isEmpty then "MULTIPOLYGON EMPTY"
    else "MULTIPOLYGON" ++ listText (polygons.map ringsText)
  | collection members =>
    if members.isEmpty then "GEOMETRYCOLLECTION EMPTY"
    else "GEOMETRYCOLLECTION" ++ listText (textAll members)

def textAll : List Geometry → List String
  | [] => []
  | g :: gs => g.text :: textAll gs

end

mutual

/-- Equality with numeric comparison of ordinates. -/
def beq : Geometry → Geometry → Bool
  | point a, point b => a == b
  | lineString a, lineString b => a == b
  | polygon a, polygon b => a == b
  | multiPoint a, multiPoint b => a == b
  | multiLineString a, multiLineString b => a == b
  | multiPolygon a, multiPolygon b => a == b
  | collection a, collection b => beqAll a b
  | _, _ => false

def beqAll : List Geometry → List Geometry → Bool
  | [], [] => true
  | a :: as, b :: bs => beq a b && beqAll as bs
  | _, _ => false

end

instance : BEq Geometry := ⟨beq⟩

end Geometry

end FeatureFilter
