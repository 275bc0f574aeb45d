import FeatureFilter.Geometry.Json
import FeatureFilter.Proofs.Geometry.RoundTrip
import FeatureFilter.Proofs.Json.Reading

/-!
# Geometries read back from their JSON form

A geometry is read back from its document when all ordinates are finite (`Geometry.ofJson?_toJson`),
also those that have no well-known text.
-/

namespace FeatureFilter

open Json (depth_lt_tagged depth_lt_array list?_map nullable?_ofOption fields?_object)

theorem Binary64.number?_toJson {x : Binary64} (h : x.isFinite = true) :
    x.toJson.number? = some x := by
  rw [toJson, if_pos h]
  rfl

theorem Binary64.toJson_ne_null {x : Binary64} (h : x.isFinite = true) : x.toJson ≠ .null := by
  rw [toJson, if_pos h]
  nofun

theorem Coord.ofJson?_toJson {c : Coord} (h : c.Finite) : ofJson? c.toJson = some c := by
  have hfields : c.toJson.fields? ["x", "y", "z"] = some [some c.x.toJson, some c.y.toJson,
      some (Json.ofOption Binary64.toJson c.z)] := fields?_object rfl (by decide)
  have hz : (Json.ofOption Binary64.toJson c.z).nullable? Json.number? = some c.z :=
    nullable?_ofOption fun z hz =>
      ⟨Binary64.toJson_ne_null (h.2.2 z hz), Binary64.number?_toJson (h.2.2 z hz)⟩
  have hofJson : ofJson? c.toJson =
      ofOrdinates? c.x.toJson c.y.toJson (Json.ofOption Binary64.toJson c.z) := by
    rw [ofJson?, hfields]
    · rfl
    · simp [toJson]
  rw [hofJson, ofOrdinates?, Binary64.number?_toJson h.1, Binary64.number?_toJson h.2.1, hz]
  rfl

namespace Geometry

theorem readLine_lineJson (cs : List Coord) (h : ∀ c ∈ cs, c.Finite) :
    readLine (lineJson cs) = some cs :=
  list?_map fun c hc => Coord.ofJson?_toJson (h c hc)

theorem readRings_ringsJson (rings : List (List Coord)) (h : ∀ c ∈ rings.flatten, c.Finite) :
    readRings (ringsJson rings) = some rings :=
  list?_map fun r hr => readLine_lineJson r fun c hc => h c (List.mem_flatten.2 ⟨r, hr, hc⟩)

theorem toJsonAll_eq (gs : List Geometry) : toJsonAll gs = gs.map toJson := by
  induction gs with
  | nil => rfl
  | cons g gs ih => rw [toJsonAll, List.map_cons, ih]

/-- A geometry is read by a reader that reads its members. -/
theorem ofJsonOver_toJson {member : Json → Option Geometry} {g : Geometry}
    (h : ∀ c ∈ g.coords, c.Finite)
    (hm : ∀ m : Geometry, (∀ c ∈ m.coords, c.Finite) → m.toJson.depth < g.toJson.depth →
      member m.toJson = some m) :
    ofJsonOver member g.toJson = some g := by
  cases g with
  | point c =>
    have hc : (Json.ofOption Coord.toJson c).nullable? Coord.ofJson? = some c :=
      nullable?_ofOption fun p hp => ⟨nofun, Coord.ofJson?_toJson (h p (Option.mem_toList.2 hp))⟩
    show ((Json.ofOption Coord.toJson c).nullable? Coord.ofJson?).map point = _
    rw [hc, Option.map_some]
  | lineString cs =>
    show (readLine (lineJson cs)).map lineString = _
    rw [readLine_lineJson cs h, Option.map_some]
  | multiPoint cs =>
    show (readLine (lineJson cs)).map multiPoint = _
    rw [readLine_lineJson cs h, Option.map_some]
  | polygon rings =>
    show (readRings (ringsJson rings)).map polygon = _
    rw [readRings_ringsJson rings h, Option.map_some]
  | multiLineString rings =>
    show (readRings (ringsJson rings)).map multiLineString = _
    rw [readRings_ringsJson rings h, Option.map_some]
  | multiPolygon polygons =>
    have hp : (Json.array (polygons.map ringsJson)).list? readRings = some polygons :=
      list?_map fun p hp => readRings_ringsJson p fun c hc => by
        obtain ⟨r, hr, hcr⟩ := List.mem_flatten.1 hc
        exact h c (List.mem_flatten.2 ⟨r, List.mem_flatten.2 ⟨p, hp, hr⟩, hcr⟩)
    show ((Json.array (polygons.map ringsJson)).list? readRings).map multiPolygon = _
    rw [hp, Option.map_some]
  | collection members =>
    have hmembers : (Json.array (members.map toJson)).list? member = some members :=
      list?_map fun m hmem => hm m (fun c hc => h c (mem_coordsAll.2 ⟨m, hmem, hc⟩)) (by
        refine Nat.lt_trans (depth_lt_array (List.mem_map_of_mem hmem)) ?_
        rw [← toJsonAll_eq]
        exact depth_lt_tagged "GeometryCollection" _)
    show ((Json.array (toJsonAll members)).list? member).map collection = _
    rw [toJsonAll_eq, hmembers, Option.map_some]

theorem ofJsonWithin_toJson {n : Nat} {g : Geometry} (h : ∀ c ∈ g.coords, c.Finite)
    (hn : g.toJson.depth ≤ n) : ofJsonWithin n g.toJson = some g := by
  induction n generalizing g with
  | zero => exact absurd (Nat.le_trans g.toJson.one_le_depth hn) (Nat.not_succ_le_zero 0)
  | succ n ih => exact ofJsonOver_toJson h fun m hfinite hlt => ih hfinite (by omega)

/-- What is written for a geometry is read back as the geometry. -/
theorem ofJson?_toJson {g : Geometry} (h : ∀ c ∈ g.coords, c.Finite) : ofJson? g.toJson = some g :=
  ofJsonWithin_toJson h (Nat.le_refl _)

end Geometry

end FeatureFilter
