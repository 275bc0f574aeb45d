import FeatureFilter.Proofs.Geometry.RoundTrip
import FeatureFilter.Proofs.Number.Order
import FeatureFilter.Proofs.Number.Written
import FeatureFilter.Proofs.Token.Name

/-!
# The box around a geometry

The coordinates of a geometry are the ones that are read off its text, from left to right, and the
box around them is the least one: they all lie within it, and one of them lies on each of its sides.
The box around a collection is the union of the boxes around its members.
-/

namespace FeatureFilter

/-! ## Coordinates of a text -/

/-- What separates the words and coordinates of a well-known text. -/
def isListMark (c : Char) : Bool := c = '(' || c = ')' || c = ','

/-- Two or three numbers with blanks between them. -/
def Coord.read? (cs : List Char) : Option Coord :=
  match (splitAtChar ' ' cs).map Binary64.read? with
  | [some x, some y] => some ⟨x, y, none⟩
  | [some x, some y, some z] => some ⟨x, y, some z⟩
  | _ => none

/-- The coordinates that stand between the marks of a text, from left to right. -/
def writtenCoords (cs : List Char) : List Coord := (cs.splitOnP isListMark).filterMap Coord.read?

theorem ordinate_chars (x : Binary64) {c : Char} (h : c ∈ (Layout.ordinate.text x).toList) :
    c ≠ ' ' ∧ isListMark c = false := by
  have hrun {c : Char} (h : (c.isDigit = true ∨ c = '.') ∨ c = 'e' ∨ c = 'E' ∨ c = '-' ∨ c = '+') :
      c ≠ ' ' ∧ isListMark c = false := by
    rcases h with (hd | rfl) | rfl | rfl | rfl | rfl
    · simp [isListMark, isDigit_ne hd]
    all_goals decide
  have hword {cs : List Char} (hcs : (cs.all fun c => c != ' ' && !isListMark c) = true)
      (h : c ∈ cs) :
      c ≠ ' ' ∧ isListMark c = false := by
    simpa using List.all_eq_true.1 hcs c h
  cases x with
  | finite x =>
    obtain ⟨n, hn, -⟩ := Wkt.exists_ordinate x
    have hchars := n.numberRun_chars (if x.negative then some true else none) endsNumeral_nil
    rw [List.append_nil, ← hn] at hchars
    rw [← hchars] at h
    exact hrun (Wkt.mem_numberRun h)
  | infinity negative =>
    cases negative
    all_goals exact hword (by decide) h
  | nan => exact hword (by decide) h

namespace Coord

theorem read?_text (c : Coord) : read? c.text.toList = some c := by
  have hblank (x : Binary64) : ' ' ∉ (Layout.ordinate.text x).toList :=
    fun h => (ordinate_chars x h).1 rfl
  obtain ⟨x, y, z⟩ := c
  cases z <;>
    simp [read?, text, splitAtChar_append, splitAtChar_of_notMem, hblank, Wkt.read?_ordinate]

theorem isListMark_text {c : Coord} {d : Char} (h : d ∈ c.text.toList) : isListMark d = false := by
  have hordinate (x : Binary64) (hd : d ∈ (Layout.ordinate.text x).toList) : isListMark d = false :=
    (ordinate_chars x hd).2
  have hblank : isListMark ' ' = false := by decide
  obtain ⟨x, y, z⟩ := c
  cases z with
  | none =>
    simp only [text, String.toList_append, List.mem_append] at h
    rcases h with (h | h) | h
    · exact hordinate x h
    · exact List.mem_singleton.1 h ▸ hblank
    · exact hordinate y h
  | some z =>
    simp only [text, String.toList_append, List.mem_append] at h
    rcases h with (((h | h) | h) | h) | h
    · exact hordinate x h
    · exact List.mem_singleton.1 h ▸ hblank
    · exact hordinate y h
    · exact List.mem_singleton.1 h ▸ hblank
    · exact hordinate z h

theorem writtenCoords_text (c : Coord) : writtenCoords c.text.toList = [c] := by
  rw [writtenCoords, List.splitOnP_eq_singleton fun _ => isListMark_text]
  simp [read?_text]

end Coord

theorem writtenCoords_append {m : Char} (hm : isListMark m = true) (a b : List Char) :
    writtenCoords (a ++ m :: b) = writtenCoords a ++ writtenCoords b := by
  rw [writtenCoords, List.splitOnP_append_cons a b hm, List.filterMap_append]
  rfl

theorem writtenCoords_nil : writtenCoords [] = [] := rfl

theorem writtenCoords_comma (s : List Char) (ss : List String) :
    writtenCoords (s ++ commaChars String.toList ss) =
      writtenCoords s ++ ss.flatMap fun s => writtenCoords s.toList := by
  induction ss generalizing s with
  | nil => simp [commaChars]
  | cons t ss ih =>
    rw [commaChars, List.flatMap_cons, List.cons_append, writtenCoords_append (by decide),
      List.flatMap_cons]
    exact congrArg _ (ih t.toList)

/-- The coordinates of a list are those of its items, one after the other. -/
theorem writtenCoords_listText (w : List Char) (items : List String) :
    writtenCoords (w ++ (listText items).toList) =
      writtenCoords w ++ items.flatMap fun s => writtenCoords s.toList := by
  have hchars : (listText items).toList = '(' :: ((joined "," items).toList ++ [')']) := by
    simp [listText]
  rw [hchars, writtenCoords_append (by decide), writtenCoords_append (by decide),
    writtenCoords_nil, List.append_nil]
  cases items with
  | nil => rfl
  | cons s ss => rw [toList_joined_comma, writtenCoords_comma, List.flatMap_cons]

section Items

variable {α : Type} {txt : α → String} {coords : α → List Coord} {xs : List α}

theorem writtenCoords_items {w : List Char} (hw : writtenCoords w = [])
    (h : ∀ x ∈ xs, writtenCoords (txt x).toList = coords x) :
    writtenCoords (w ++ (listText (xs.map txt)).toList) = xs.flatMap coords := by
  rw [writtenCoords_listText, hw, List.nil_append, List.flatMap_map]
  exact List.flatMap_congr h

theorem writtenCoords_typed (name empty : String) (xs : List α)
    (hname : writtenCoords name.toList = []) (hempty : writtenCoords empty.toList = [])
    (h : ∀ x ∈ xs, writtenCoords (txt x).toList = coords x) :
    writtenCoords (if xs.isEmpty then empty else name ++ listText (xs.map txt)).toList =
      xs.flatMap coords := by
  cases xs with
  | nil => exact hempty
  | cons x xs =>
    rw [if_neg (by simp), String.toList_append]
    exact writtenCoords_items hname h

end Items

namespace Geometry

theorem writtenCoords_line (cs : List Coord) : writtenCoords (lineText cs).toList = cs := by
  have h := writtenCoords_items writtenCoords_nil fun c (_ : c ∈ cs) => c.writtenCoords_text
  rwa [List.flatMap_singleton'] at h

theorem writtenCoords_closed {w : List Char} (hw : writtenCoords w = []) (c : Coord) :
    writtenCoords (w ++ '(' :: (c.text.toList ++ [')'])) = [c] := by
  rw [writtenCoords_append (by decide), writtenCoords_append (by decide), hw,
    c.writtenCoords_text, writtenCoords_nil]
  rfl

theorem writtenCoords_rings (rings : List (List Coord)) :
    writtenCoords (ringsText rings).toList = rings.flatten := by
  have h := writtenCoords_items writtenCoords_nil fun cs (_ : cs ∈ rings) => writtenCoords_line cs
  rwa [List.flatMap_id'] at h

/-- The coordinates of a geometry are those of its text, from left to right. -/
theorem writtenCoords_text : ∀ g : Geometry, writtenCoords g.text.toList = g.coords
  | point p => by
    cases p with
    | none => decide
    | some c =>
      have hchars :
          (point (some c)).text.toList = "POINT".toList ++ '(' :: (c.text.toList ++ [')']) := by
        simp [text]
      rw [hchars, writtenCoords_closed (by decide)]
      rfl
  | multiPoint cs => by
    have hmember (c : Coord) : writtenCoords ("(" ++ c.text ++ ")").toList = [c] := by
      have h := writtenCoords_closed writtenCoords_nil c
      simpa using h
    have h := writtenCoords_typed "MULTIPOINT" "MULTIPOINT EMPTY" cs (by decide)
      (by decide) fun c _ => hmember c
    rwa [List.flatMap_singleton'] at h
  | lineString cs => by
    have h := writtenCoords_typed "LINESTRING" "LINESTRING EMPTY" cs (by decide)
      (by decide) fun c _ => c.writtenCoords_text
    rwa [List.flatMap_singleton'] at h
  | multiLineString lines => by
    have h := writtenCoords_typed "MULTILINESTRING" "MULTILINESTRING EMPTY" lines (by decide)
      (by decide) fun cs _ => writtenCoords_line cs
    rwa [List.flatMap_id'] at h
  | polygon rings => by
    have h := writtenCoords_typed "POLYGON" "POLYGON EMPTY" rings (by decide)
      (by decide) fun cs _ => writtenCoords_line cs
    rwa [List.flatMap_id'] at h
  | multiPolygon polygons => by
    have h := writtenCoords_typed "MULTIPOLYGON" "MULTIPOLYGON EMPTY" polygons (by decide)
      (by decide) fun rings _ => writtenCoords_rings rings
    rwa [List.flatMap_def, ← List.flatten_flatten] at h
  | collection members => by
    have h :=
      writtenCoords_typed "GEOMETRYCOLLECTION" "GEOMETRYCOLLECTION EMPTY" members (by decide)
        (by decide) fun g _ => writtenCoords_text g
    rwa [← textAll_eq, ← coordsAll_eq] at h

end Geometry

/-! ## Boxes -/

namespace Bounds

def union (a b : Bounds) : Bounds :=
  ⟨a.minX.min b.minX, a.minY.min b.minY, a.maxX.max b.maxX, a.maxY.max b.maxY⟩

instance : Std.Associative union where
  assoc a b c := by simp only [union, Std.Associative.assoc]

/-- A coordinate lies in the box or on a side of it. -/
structure Holds (b : Bounds) (c : Coord) : Prop where
  west : b.minX.le c.x = true
  south : b.minY.le c.y = true
  east : c.x.le b.maxX = true
  north : c.y.le b.maxY = true

/-- All of the coordinates lie in the box, and one of them on each of its sides. -/
structure IsTight (b : Bounds) (cs : List Coord) : Prop where
  holds : ∀ c ∈ cs, b.Holds c
  west : ∃ c ∈ cs, (c.x == b.minX) = true
  south : ∃ c ∈ cs, (c.y == b.minY) = true
  east : ∃ c ∈ cs, (c.x == b.maxX) = true
  north : ∃ c ∈ cs, (c.y == b.maxY) = true

/-- Each side of the box grown by coordinates is found on its own. -/
theorem foldl_extend (b : Bounds) (cs : List Coord) :
    cs.foldl extend b = ⟨(cs.map Coord.x).foldl Binary64.min b.minX,
      (cs.map Coord.y).foldl Binary64.min b.minY, (cs.map Coord.x).foldl Binary64.max b.maxX,
      (cs.map Coord.y).foldl Binary64.max b.maxY⟩ := by
  induction cs generalizing b with
  | nil => rfl
  | cons c cs ih => exact ih (b.extend c)

end Bounds

/-- What is found among the ordinates of coordinates is an ordinate of one of them. -/
theorem exists_beq_of_mem {f : Coord → Binary64} {cs : List Coord} {x : Binary64}
    (h : x ∈ cs.map f) (hnumber : ∀ y ∈ cs.map f, y ≠ .nan) : ∃ c ∈ cs, (f c == x) = true := by
  obtain ⟨c, hc, rfl⟩ := List.mem_map.1 h
  exact ⟨c, hc, Binary64.beq_self_iff.2 (hnumber _ h)⟩

/-- The box grown from one coordinate by others is tight. -/
theorem Bounds.isTight_foldl {c : Coord} {cs : List Coord} (h : ∀ d ∈ c :: cs, d.IsNumber) :
    (cs.foldl extend (.ofCoord c)).IsTight (c :: cs) := by
  have hx : ∀ x ∈ (c :: cs).map Coord.x, x ≠ .nan :=
    List.forall_mem_map.2 fun d hd => (h d hd).1
  have hy : ∀ y ∈ (c :: cs).map Coord.y, y ≠ .nan :=
    List.forall_mem_map.2 fun d hd => (h d hd).2.1
  obtain ⟨hwest, hwest'⟩ := Binary64.foldl_min hx
  obtain ⟨hsouth, hsouth'⟩ := Binary64.foldl_min hy
  obtain ⟨heast, heast'⟩ := Binary64.foldl_max hx
  obtain ⟨hnorth, hnorth'⟩ := Binary64.foldl_max hy
  rw [foldl_extend]
  exact ⟨fun d hd => ⟨hwest' _ (List.mem_map_of_mem hd), hsouth' _ (List.mem_map_of_mem hd),
      heast' _ (List.mem_map_of_mem hd), hnorth' _ (List.mem_map_of_mem hd)⟩,
    exists_beq_of_mem hwest hx, exists_beq_of_mem hsouth hy, exists_beq_of_mem heast hx,
    exists_beq_of_mem hnorth hy⟩

namespace Geometry

/-- The box of coordinates, if there are any: each of them is a box by itself, and these are united.
-/
theorem bounds_eq (g : Geometry) :
    g.bounds = (g.coords.map fun c => some (.ofCoord c)).foldl (Option.merge .union) none := by
  have hfold (b : Bounds) (cs : List Coord) :
      (cs.map fun c => some (.ofCoord c)).foldl (Option.merge .union) (some b) =
        some (cs.foldl .extend b) := by
    induction cs generalizing b with
    | nil => rfl
    | cons c cs ih => exact ih (b.extend c)
  unfold bounds
  cases g.coords with
  | nil => rfl
  | cons c cs => exact (hfold (.ofCoord c) cs).symm

/-- The box of a collection is the union of those of its members that have one. -/
theorem bounds_collection (members : List Geometry) :
    (collection members).bounds = (members.map bounds).foldl (Option.merge .union) none := by
  have hfold (b : Option Bounds) : ((coordsAll members).map fun c => some (.ofCoord c)).foldl
      (Option.merge .union) b = (members.map bounds).foldl (Option.merge .union) b := by
    induction members generalizing b with
    | nil => rfl
    | cons g gs ih =>
      have hmember : ((g.coords.map fun c => some (.ofCoord c)).foldl (Option.merge .union) b) =
          Option.merge .union b g.bounds := by
        have h : Option.merge .union b none = b := Option.merge_none_right
        rw [g.bounds_eq, ← @List.foldl_assoc _ (Option.merge Bounds.union), h]
      rw [coordsAll, List.map_append, List.foldl_append, ih, hmember, List.map_cons,
        List.foldl_cons]
  rw [bounds_eq, coords]
  exact hfold none

theorem bounds_eq_none_iff {g : Geometry} : g.bounds = none ↔ g.coords = [] := by
  unfold bounds
  cases g.coords <;> simp

/-- The coordinates of a geometry are those that are read off its text, in this order. It has a box
around it just if there are any, and this is tight: they all lie in it, and one of them on each
side. The box around a collection is the union of the boxes around those members that have one. -/
theorem bounds_tight (g : Geometry) (h : ∀ c ∈ g.coords, c.IsNumber) :
    writtenCoords g.text.toList = g.coords ∧
    (g.bounds = none ↔ g.coords = []) ∧
    (∀ b, g.bounds = some b → b.IsTight g.coords) ∧
    ∀ members, g = .collection members →
      g.bounds = (members.map bounds).foldl (Option.merge .union) none := by
  refine ⟨writtenCoords_text g, bounds_eq_none_iff, fun b hb => ?_, ?_⟩
  · unfold bounds at hb
    split at hb
    · cases hb
    · rename_i c cs hcoords
      cases hb
      rw [hcoords] at h ⊢
      exact Bounds.isTight_foldl h
  · rintro members rfl
    exact bounds_collection members

/-- The first coordinate stands inside a member of a member, behind an empty one. -/
def nestedLine : Geometry :=
  .collection [.point none,
    .collection [.lineString
      [⟨.ofInt 3, .ofInt (-2), none⟩, ⟨.ofInt 1, .ofInt 5, some (.ofInt 9)⟩]],
    .multiPoint [], .point (some ⟨.ofInt 2, .ofInt 7, none⟩)]

theorem bounds_tight_nestedLine :
    (∀ c ∈ nestedLine.coords, c.IsNumber) ∧
    nestedLine.bounds = some ⟨.ofInt 1, .ofInt (-2), .ofInt 3, .ofInt 7⟩ ∧
    Bounds.IsTight ⟨.ofInt 1, .ofInt (-2), .ofInt 3, .ofInt 7⟩ nestedLine.coords := by
  have hcoords : ∀ c ∈ nestedLine.coords, c.x ≠ .nan ∧ c.y ≠ .nan ∧ c.z ≠ some .nan := by
    decide +kernel
  have hbounds : nestedLine.bounds = some ⟨.ofInt 1, .ofInt (-2), .ofInt 3, .ofInt 7⟩ := by
    decide +kernel
  exact ⟨hcoords, hbounds, (bounds_tight nestedLine hcoords).2.2.1 _ hbounds⟩

end Geometry

end FeatureFilter
