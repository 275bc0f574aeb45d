import FeatureFilter.Proofs.Filter.Equality
import FeatureFilter.Proofs.Geometry.Json
import FeatureFilter.Proofs.Number.Equality

/-!
# What equality of geometries passes over

Zeros are equal whatever their sign, so equal geometries need not be the same. Where they are not,
they differ in their nuances, and then in their texts and their JSON forms, too
(`Geometry.eq_or_apart`): the first nuance that differs shows in all three. That holds for numbers,
coordinates and rows of them as well, and is carried from the parts to the whole by `View.Apart`.
-/

namespace FeatureFilter

/-! ## Nuances -/

/-- What equality passes over: the sign of a zero, the offset of a timestamp. -/
inductive Nuance where
  | sign (negative : Bool)
  | offset (minutes : Int)
  deriving DecidableEq

def Binary64.nuances : Binary64 → List Nuance
  | .finite x => if x.significand = 0 then [.sign x.negative] else []
  | _ => []

def Coord.nuances (c : Coord) : List Nuance :=
  c.x.nuances ++ c.y.nuances ++ c.z.toList.flatMap Binary64.nuances

def Geometry.nuances (g : Geometry) : List Nuance := g.coords.flatMap Coord.nuances

/-! ## Lists that part -/

section Parting

variable {α β : Type} {as bs us vs : List α}

/-- The lists differ somewhere in what both of them have, so that they do whatever stands behind
them. -/
def Part (as bs : List α) : Prop := ∀ us vs, as ++ us ≠ bs ++ vs

theorem Part.cons_ne {a b : α} (h : a ≠ b) : Part (a :: as) (b :: bs) :=
  fun _ _ heq => h (List.cons.inj heq).1

theorem Part.append (h : Part as bs) (us vs : List α) : Part (as ++ us) (bs ++ vs) :=
  fun us' vs' heq => h (us ++ us') (vs ++ vs') (by simpa using heq)

theorem Part.behind (us : List α) (h : Part as bs) : Part (us ++ as) (us ++ bs) :=
  fun us' vs' heq => h us' vs' (by simpa using heq)

theorem Part.ne (h : Part as bs) : as ≠ bs := fun heq => h [] [] (by rw [heq])

/-- Lists whose elements are the same or related are the same, or have a first pair of related
elements. -/
theorem first_related {R : α → α → Prop} (h : List.Forall₂ (fun a b => a = b ∨ R a b) as bs) :
    as = bs ∨ ∃ front a b as' bs', as = front ++ a :: as' ∧ bs = front ++ b :: bs' ∧ R a b := by
  induction h with
  | nil => exact .inl rfl
  | @cons a b as bs hab _ ih =>
    obtain rfl | hab := hab
    · obtain rfl | ⟨front, x, y, as', bs', rfl, rfl, hxy⟩ := ih
      · exact .inl rfl
      · exact .inr ⟨a :: front, x, y, as', bs', rfl, rfl, hxy⟩
    · exact .inr ⟨[], a, b, as, bs, rfl, rfl, hab⟩

/-- What stands in front of a text in a row is decided by the texts before it. -/
theorem exists_toList_joined (separator : String) (front : List String) :
    ∃ us, ∀ s ss, ∃ vs, (joined separator (front ++ s :: ss)).toList = us ++ (s.toList ++ vs) := by
  cases front with
  | nil => exact ⟨[], fun s ss => ⟨_, toList_joined_cons separator s ss⟩⟩
  | cons t front =>
    refine ⟨t.toList ++ (front.map String.toList).flatMap (separator.toList ++ ·) ++
      separator.toList, fun s ss => ⟨(ss.map String.toList).flatMap (separator.toList ++ ·), ?_⟩⟩
    rw [List.cons_append, toList_joined_cons, List.map_append, List.flatMap_append, List.map_cons,
      List.flatMap_cons]
    simp only [List.append_assoc]

end Parting

/-! ## Views -/

/-- How a tree shows: its nuances, its text and its JSON form. -/
structure View where
  nuances : List Nuance
  text : String
  json : Json

namespace View

variable {α : Type} {s t : View}

/-- The views differ in all three, and in nuances and text whatever stands behind them. -/
structure Apart (s t : View) : Prop where
  nuances : Part s.nuances t.nuances
  text : Part s.text.toList t.text.toList
  json : s.json ≠ t.json

/-- A view with a text around its text and a JSON form around its JSON form. -/
def framed (before after : String) (form : Json → Json) (s : View) : View :=
  ⟨s.nuances, before ++ s.text ++ after, form s.json⟩

theorem Apart.framed {form : Json → Json} (h : s.Apart t) (before after : String)
    (hf : ∀ j k, form j = form k → j = k) :
    (s.framed before after form).Apart (t.framed before after form) where
  nuances := h.nuances
  text := by
    simp only [View.framed, String.toList_append, List.append_assoc]
    exact (h.text.append _ _).behind _
  json := fun heq => h.json (hf _ _ heq)

/-- A tag in front of the JSON form leaves views apart. -/
theorem Apart.tagged (h : s.Apart t) (before after tag : String) :
    (s.framed before after (.tagged tag)).Apart (t.framed before after (.tagged tag)) :=
  h.framed before after fun j k hjk => by simpa [Json.tagged] using hjk

def row (separator : String) (ss : List View) : View :=
  ⟨ss.flatMap nuances, grouped (joined separator (ss.map text)), .array (ss.map json)⟩

/-- Rows part where their first different elements do. -/
theorem row_apart (separator : String) (view : α → View) {as bs : List α}
    (h : List.Forall₂ (fun a b => a = b ∨ (view a).Apart (view b)) as bs) :
    as = bs ∨ as.isEmpty = false ∧ bs.isEmpty = false ∧
      (row separator (as.map view)).Apart (row separator (bs.map view)) := by
  refine (first_related h).imp_right ?_
  rintro ⟨front, a, b, as', bs', rfl, rfl, hab⟩
  -- In all three, what is in front of `a` and `b` is the same, and what is behind does not matter.
  obtain ⟨us, hus⟩ := exists_toList_joined separator ((front.map view).map text)
  obtain ⟨vs, hvs⟩ := hus (view a).text ((as'.map view).map text)
  obtain ⟨vs', hvs'⟩ := hus (view b).text ((bs'.map view).map text)
  refine ⟨by simp, by simp, ?_, ?_, ?_⟩
  · simp only [row, List.map_append, List.map_cons, List.flatMap_append, List.flatMap_cons]
    exact (hab.nuances.append _ _).behind _
  · simp only [row, grouped, List.map_append, List.map_cons, String.toList_append, hvs, hvs',
      List.append_assoc]
    exact ((hab.text.append _ _).behind _).behind _
  · simp only [row, List.map_append, List.map_cons, ne_eq, Json.array.injEq,
      List.append_cancel_left_eq, List.cons.injEq, not_and]
    exact fun heq => absurd heq hab.json

/-- Two views with texts around them and between them. -/
def pair (before between after : String) (form : Json → Json → Json) (s t : View) : View :=
  ⟨s.nuances ++ t.nuances, before ++ s.text ++ between ++ t.text ++ after, form s.json t.json⟩

section Pair

variable {s' t' : View} {form : Json → Json → Json} (before between after : String)
  (hf : ∀ {j k j' k'}, form j k = form j' k' → j = j' ∧ k = k')

include hf

theorem Apart.pair_left (h : s.Apart s') :
    (pair before between after form s t).Apart (pair before between after form s' t') where
  nuances := h.nuances.append _ _
  text := by
    simp only [pair, String.toList_append, List.append_assoc]
    exact (h.text.append _ _).behind _
  json := fun heq => h.json (hf heq).1

theorem Apart.pair_right (h : t.Apart t') :
    (pair before between after form s t).Apart (pair before between after form s t') where
  nuances := h.nuances.behind _
  text := by
    simp only [pair, String.toList_append, List.append_assoc]
    exact (((h.text.append _ _).behind _).behind _).behind _
  json := fun heq => h.json (hf heq).2

end Pair

end View

/-! ## Numbers and geometries -/

def Binary64.view (l : Layout) (x : Binary64) : View := ⟨x.nuances, l.text x, x.toJson⟩

/-- The texts of the zeros part at once: one of them starts with a hyphen. -/
theorem Layout.part_zeros (l : Layout) (negative : Bool) :
    Part (l.text (.finite (.zero negative))).toList
      (l.text (.finite (.zero !negative))).toList := by
  have hpositive : l.decimalText ⟨false, 0, 0⟩ =
      '0' :: (if l.keepsPoint then ['.', '0'] else []) := by
    rw [decimalText]
    cases l.keepsPoint <;> rfl
  have hnegative : l.decimalText ⟨true, 0, 0⟩ = '-' :: l.decimalText ⟨false, 0, 0⟩ := rfl
  have htext (b : Bool) : (l.text (.finite (.zero b))).toList = l.decimalText ⟨b, 0, 0⟩ :=
    String.toList_ofList
  rw [htext, htext]
  cases negative with
  | false =>
    rw [Bool.not_false, hnegative, hpositive]
    exact .cons_ne (by decide)
  | true =>
    rw [Bool.not_true, hnegative, hpositive]
    exact .cons_ne (by decide)

/-- Equal numbers are the same, or differ in the sign that their texts start with. -/
theorem Binary64.eq_or_apart (l : Layout) {x y : Binary64} (h : (x == y) = true) :
    x = y ∨ (x.view l).Apart (y.view l) := by
  refine (eq_or_zeros_of_beq h).imp_right ?_
  rintro ⟨negative, rfl, rfl⟩
  refine ⟨.cons_ne ?_, l.part_zeros negative, ?_⟩
  · cases negative <;> decide
  · cases negative <;> simp [view, toJson, isFinite, Finite.zero]

namespace Coord

def view (c : Coord) : View := ⟨c.nuances, c.text, c.toJson⟩

theorem toList_text (c : Coord) : c.text.toList =
    (Layout.ordinate.text c.x).toList ++ (' ' :: ((Layout.ordinate.text c.y).toList ++
      c.z.toList.flatMap fun z => ' ' :: (Layout.ordinate.text z).toList)) := by
  obtain ⟨x, y, _ | z⟩ := c <;> simp [text]

/-- The first ordinate that differs tells coordinates apart. -/
theorem eq_or_apart {c d : Coord} (h : (c == d) = true) : c = d ∨ c.view.Apart d.view := by
  obtain ⟨x, y, z⟩ := c
  obtain ⟨x', y', z'⟩ := d
  obtain ⟨hx, hy, hz⟩ := beq_iff.1 h
  obtain rfl | hx := Binary64.eq_or_apart .ordinate hx
  · obtain rfl | hy := Binary64.eq_or_apart .ordinate hy
    · cases z with
      | none =>
        cases z' with
        | none => exact .inl rfl
        | some z' => cases hz
      | some z =>
        cases z' with
        | none => cases hz
        | some z' =>
          refine (Binary64.eq_or_apart .ordinate hz).imp (fun hz => by rw [hz])
            fun hz => ⟨?_, ?_, ?_⟩
          · exact (hz.nuances.append _ _).behind _
          · simp only [view, toList_text]
            exact ((((hz.text.behind [' ']).append [] []).behind _).behind [' ']).behind _
          · intro heq
            simp only [view, toJson, Json.object.injEq, List.cons.injEq, Prod.mk.injEq, true_and,
              and_true] at heq
            exact hz.json heq
    · refine .inr ⟨?_, ?_, ?_⟩
      · simp only [view, nuances, List.append_assoc]
        exact (hy.nuances.append _ _).behind _
      · simp only [view, toList_text]
        exact ((hy.text.append _ _).behind [' ']).behind _
      · intro heq
        simp only [view, toJson, Json.object.injEq, List.cons.injEq, Prod.mk.injEq, true_and] at heq
        exact hy.json heq.1
  · refine .inr ⟨?_, ?_, ?_⟩
    · simp only [view, nuances, List.append_assoc]
      exact hx.nuances.append _ _
    · simp only [view, toList_text]
      exact hx.text.append _ _
    · intro heq
      simp only [view, toJson, Json.object.injEq, List.cons.injEq, Prod.mk.injEq, true_and] at heq
      exact hx.json heq.1

end Coord

namespace Geometry

def view (g : Geometry) : View := ⟨g.nuances, g.text, g.toJson⟩

theorem flatMap_flatten {α β : Type} (f : α → List β) (xss : List (List α)) :
    xss.flatten.flatMap f = xss.flatMap fun xs => xs.flatMap f := by
  rw [← List.flatMap_id, List.flatMap_assoc]
  rfl

def lineView (cs : List Coord) : View := .row "," (cs.map Coord.view)

def ringsView (rings : List (List Coord)) : View := .row "," (rings.map lineView)

def polygonsView (polygons : List (List (List Coord))) : View := .row "," (polygons.map ringsView)

def pointsView (cs : List Coord) : View := .row "," (cs.map fun c => c.view.framed "(" ")" id)

def membersView (gs : List Geometry) : View := .row "," (gs.map view)

theorem lineView_eq (cs : List Coord) :
    lineView cs = ⟨cs.flatMap Coord.nuances, lineText cs, lineJson cs⟩ := by
  simp [lineView, View.row, Coord.view, lineText, lineJson, listText, grouped, List.flatMap_map,
    Function.comp_def]

theorem ringsView_eq (rings : List (List Coord)) :
    ringsView rings = ⟨rings.flatten.flatMap Coord.nuances, ringsText rings, ringsJson rings⟩ := by
  simp [ringsView, View.row, lineView_eq, ringsText, ringsJson, listText, grouped, List.flatMap_map,
    flatMap_flatten, Function.comp_def]

theorem polygonsView_eq (polygons : List (List (List Coord))) :
    polygonsView polygons = ⟨polygons.flatten.flatten.flatMap Coord.nuances,
      listText (polygons.map ringsText), .array (polygons.map ringsJson)⟩ := by
  simp [polygonsView, View.row, ringsView_eq, listText, grouped, List.flatMap_map, flatMap_flatten,
    Function.comp_def]

theorem pointsView_eq (cs : List Coord) :
    pointsView cs = ⟨cs.flatMap Coord.nuances, listText (cs.map fun c => "(" ++ c.text ++ ")"),
      lineJson cs⟩ := by
  simp [pointsView, View.row, View.framed, Coord.view, lineJson, listText, grouped,
    List.flatMap_map, Function.comp_def]

theorem membersView_eq (gs : List Geometry) :
    membersView gs = ⟨(coordsAll gs).flatMap Coord.nuances, listText (textAll gs),
      .array (toJsonAll gs)⟩ := by
  have hcoords : (coordsAll gs).flatMap Coord.nuances = gs.flatMap nuances := by
    rw [coordsAll_eq, List.flatMap_assoc]
    rfl
  simp [membersView, View.row, view, hcoords, textAll_eq, toJsonAll_eq, listText, grouped,
    List.flatMap_map, Function.comp_def]

section Words

variable {cs : List Coord} {rings : List (List Coord)} {polygons : List (List (List Coord))}
  {gs : List Geometry}

theorem view_point (c : Coord) :
    (point (some c)).view = c.view.framed "POINT(" ")" (.tagged "Point") := by
  simp [view, View.framed, Coord.view, nuances, coords, text, toJson, Json.ofOption]

theorem view_lineString (h : cs.isEmpty = false) :
    (lineString cs).view = (lineView cs).framed "LINESTRING" "" (.tagged "LineString") := by
  simp [view, View.framed, lineView_eq, nuances, coords, text, toJson, h]

theorem view_polygon (h : rings.isEmpty = false) :
    (polygon rings).view = (ringsView rings).framed "POLYGON" "" (.tagged "Polygon") := by
  simp [view, View.framed, ringsView_eq, nuances, coords, text, toJson, h]

theorem view_multiPoint (h : cs.isEmpty = false) :
    (multiPoint cs).view = (pointsView cs).framed "MULTIPOINT" "" (.tagged "MultiPoint") := by
  simp [view, View.framed, pointsView_eq, nuances, coords, text, toJson, h]

theorem view_multiLineString (h : rings.isEmpty = false) :
    (multiLineString rings).view =
      (ringsView rings).framed "MULTILINESTRING" "" (.tagged "MultiLineString") := by
  simp [view, View.framed, ringsView_eq, nuances, coords, text, toJson, h]

theorem view_multiPolygon (h : polygons.isEmpty = false) :
    (multiPolygon polygons).view =
      (polygonsView polygons).framed "MULTIPOLYGON" "" (.tagged "MultiPolygon") := by
  simp [view, View.framed, polygonsView_eq, nuances, coords, text, toJson, h]

theorem view_collection (h : gs.isEmpty = false) :
    (collection gs).view =
      (membersView gs).framed "GEOMETRYCOLLECTION" "" (.tagged "GeometryCollection") := by
  simp [view, View.framed, membersView_eq, nuances, coords, text, toJson, h]

end Words

theorem line_eq_or_apart {as bs : List Coord} (h : (as == bs) = true) :
    as = bs ∨ as.isEmpty = false ∧ bs.isEmpty = false ∧ (lineView as).Apart (lineView bs) :=
  View.row_apart "," Coord.view ((beq_list_iff.1 h).imp fun _ _ => Coord.eq_or_apart)

theorem rings_eq_or_apart {as bs : List (List Coord)} (h : (as == bs) = true) :
    as = bs ∨ as.isEmpty = false ∧ bs.isEmpty = false ∧ (ringsView as).Apart (ringsView bs) :=
  View.row_apart "," lineView
    ((beq_list_iff.1 h).imp fun _ _ h => (line_eq_or_apart h).imp_right fun h => h.2.2)

theorem polygons_eq_or_apart {as bs : List (List (List Coord))} (h : (as == bs) = true) :
    as = bs ∨ as.isEmpty = false ∧ bs.isEmpty = false ∧ (polygonsView as).Apart (polygonsView bs) :=
  View.row_apart "," ringsView
    ((beq_list_iff.1 h).imp fun _ _ h => (rings_eq_or_apart h).imp_right fun h => h.2.2)

theorem points_eq_or_apart {as bs : List Coord} (h : (as == bs) = true) :
    as = bs ∨ as.isEmpty = false ∧ bs.isEmpty = false ∧ (pointsView as).Apart (pointsView bs) :=
  View.row_apart "," (fun c : Coord => c.view.framed "(" ")" id)
    ((beq_list_iff.1 h).imp fun _ _ h =>
      (Coord.eq_or_apart h).imp_right fun h => h.framed "(" ")" fun _ _ => id)

mutual

/-- Equal geometries are the same, or differ in the sign of a zero, and in their texts and their
JSON forms. -/
theorem eq_or_apart : ∀ {g k : Geometry}, beq g k = true → g = k ∨ g.view.Apart k.view := by
  intro g k h
  cases g with
  | point c =>
    cases k with
    | point d =>
      cases c with
      | none =>
        cases d with
        | none => exact .inl rfl
        | some d => cases h
      | some c =>
        cases d with
        | none => cases h
        | some d =>
          refine (Coord.eq_or_apart h).imp (fun hc => by rw [hc]) fun hc => ?_
          rw [view_point, view_point]
          exact hc.tagged _ _ _
    | _ => cases h
  | lineString as =>
    cases k with
    | lineString bs =>
      refine (line_eq_or_apart h).imp (congrArg _) fun ⟨hg, hk, hrow⟩ => ?_
      rw [view_lineString hg, view_lineString hk]
      exact hrow.tagged _ _ _
    | _ => cases h
  | polygon as =>
    cases k with
    | polygon bs =>
      refine (rings_eq_or_apart h).imp (congrArg _) fun ⟨hg, hk, hrow⟩ => ?_
      rw [view_polygon hg, view_polygon hk]
      exact hrow.tagged _ _ _
    | _ => cases h
  | multiPoint as =>
    cases k with
    | multiPoint bs =>
      refine (points_eq_or_apart h).imp (congrArg _) fun ⟨hg, hk, hrow⟩ => ?_
      rw [view_multiPoint hg, view_multiPoint hk]
      exact hrow.tagged _ _ _
    | _ => cases h
  | multiLineString as =>
    cases k with
    | multiLineString bs =>
      refine (rings_eq_or_apart h).imp (congrArg _) fun ⟨hg, hk, hrow⟩ => ?_
      rw [view_multiLineString hg, view_multiLineString hk]
      exact hrow.tagged _ _ _
    | _ => cases h
  | multiPolygon as =>
    cases k with
    | multiPolygon bs =>
      refine (polygons_eq_or_apart h).imp (congrArg _) fun ⟨hg, hk, hrow⟩ => ?_
      rw [view_multiPolygon hg, view_multiPolygon hk]
      exact hrow.tagged _ _ _
    | _ => cases h
  | collection as =>
    cases k with
    | collection bs =>
      refine (View.row_apart "," view (forall₂_eq_or_apart h)).imp (congrArg _)
        fun ⟨hg, hk, hrow⟩ => ?_
      rw [view_collection hg, view_collection hk]
      exact hrow.tagged _ _ _
    | _ => cases h

theorem forall₂_eq_or_apart : ∀ {gs ks : List Geometry}, beqAll gs ks = true →
    List.Forall₂ (fun g k => g = k ∨ g.view.Apart k.view) gs ks := by
  intro gs ks h
  cases gs with
  | nil =>
    cases ks with
    | nil => exact .nil
    | cons k ks => cases h
  | cons g gs =>
    cases ks with
    | nil => cases h
    | cons k ks =>
      obtain ⟨hg, hgs⟩ := Bool.and_eq_true_iff.1 h
      exact .cons (eq_or_apart hg) (forall₂_eq_or_apart hgs)

end

end Geometry

end FeatureFilter
