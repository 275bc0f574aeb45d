import FeatureFilter.Proofs.Number.Written
import Mathlib.Data.List.DropRight

/-!
# The grammar of well-known text

Which texts are which geometries, said without a reader. A rule says what stands at the front of a
text and what is left of the text. White space may stand in front of every mark, word and number,
and nowhere else: what is left starts right behind the last of them. `IsGeometry n` are the
geometries with at most `n` levels of members, and a text has no more levels than characters
(`IsGeometry.level`).
-/

namespace FeatureFilter.Wkt

/-- What stands at the front of a text, and what is left of the text. -/
abbrev Rule (α : Type) := List Char → α → List Char → Prop

/-! ## Marks, words and numbers -/

def IsMark (c : Char) (cs rest : List Char) : Prop := trimStart cs = c :: rest

/-- All the letters that come next, at least one. -/
structure IsWord (cs w rest : List Char) : Prop where
  text : trimStart cs = w ++ rest
  ne_nil : w ≠ []
  letters : ∀ c ∈ w, c.isAlpha = true
  ends : ∀ c, rest.head? = some c → c.isAlpha = false

def IsName (name : String) (cs rest : List Char) : Prop :=
  ∃ w, IsWord cs w rest ∧ w.map Char.toUpper = name.toList

/-- The longest run of characters that can stand in a number. -/
def IsNumber : Rule Binary64 := fun cs x rest =>
  ∃ run, trimStart cs = run ++ rest ∧ numberRun true (run ++ rest) = run ∧
    Binary64.read? run = some x

/-! ## Coordinates -/

/-- Two numbers, or three where a third one can follow. -/
inductive IsCoord : Rule Coord where
  | plane {cs mid rest : List Char} {x y : Binary64} (hx : IsNumber cs x mid)
    (hy : IsNumber mid y rest) (hz : startsNumber (trimStart rest).head? = false) :
    IsCoord cs ⟨x, y, none⟩ rest
  | space {cs mid mid' rest : List Char} {x y z : Binary64} (hx : IsNumber cs x mid)
    (hy : IsNumber mid y mid') (hz : IsNumber mid' z rest) : IsCoord cs ⟨x, y, some z⟩ rest

inductive InParentheses (inner : Rule α) : Rule α where
  | intro {cs mid mid' rest : List Char} {a : α} (hl : IsMark '(' cs mid) (h : inner mid a mid')
    (hr : IsMark ')' mid' rest) : InParentheses inner cs a rest

inductive Further (item : Rule α) : Rule (List α) where
  | nil {cs : List Char} : Further item cs [] cs
  | cons {cs mid mid' rest : List Char} {a : α} {as : List α} (comma : IsMark ',' cs mid)
    (head : item mid a mid') (tail : Further item mid' as rest) : Further item cs (a :: as) rest

inductive CommaList (item : Rule α) : Rule (List α) where
  | intro {cs mid rest : List Char} {a : α} {as : List α} (head : item cs a mid)
    (tail : Further item mid as rest) : CommaList item cs (a :: as) rest

abbrev IsLine : Rule (List Coord) := InParentheses (CommaList IsCoord)

abbrev IsRings : Rule (List (List Coord)) := InParentheses (CommaList IsLine)

def IsMemberPoint : Rule Coord := fun cs c rest =>
  InParentheses IsCoord cs c rest ∨ IsCoord cs c rest

/-! ## Geometries -/

inductive GeometryType where
  | point
  | lineString
  | polygon
  | multiPoint
  | multiLineString
  | multiPolygon
  | collection

namespace GeometryType

def name : GeometryType → String
  | point => "POINT"
  | lineString => "LINESTRING"
  | polygon => "POLYGON"
  | multiPoint => "MULTIPOINT"
  | multiLineString => "MULTILINESTRING"
  | multiPolygon => "MULTIPOLYGON"
  | collection => "GEOMETRYCOLLECTION"

def empty : GeometryType → Geometry
  | point => .point none
  | lineString => .lineString []
  | polygon => .polygon []
  | multiPoint => .multiPoint []
  | multiLineString => .multiLineString []
  | multiPolygon => .multiPolygon []
  | collection => .collection []

theorem name_injective : Function.Injective name := by
  intro s t h
  cases s <;> cases t <;> first | rfl | exact absurd h (by decide)

end GeometryType

inductive Contents (member : Rule Geometry) : GeometryType → Rule Geometry where
  | point {cs rest : List Char} {c : Coord} (h : IsCoord cs c rest) :
    Contents member .point cs (.point (some c)) rest
  | lineString {cs rest : List Char} {ps : List Coord} (h : CommaList IsCoord cs ps rest) :
    Contents member .lineString cs (.lineString ps) rest
  | polygon {cs rest : List Char} {rings : List (List Coord)} (h : CommaList IsLine cs rings rest) :
    Contents member .polygon cs (.polygon rings) rest
  | multiPoint {cs rest : List Char} {ps : List Coord} (h : CommaList IsMemberPoint cs ps rest) :
    Contents member .multiPoint cs (.multiPoint ps) rest
  | multiLineString {cs rest : List Char} {lines : List (List Coord)}
    (h : CommaList IsLine cs lines rest) :
    Contents member .multiLineString cs (.multiLineString lines) rest
  | multiPolygon {cs rest : List Char} {polygons : List (List (List Coord))}
    (h : CommaList IsRings cs polygons rest) :
    Contents member .multiPolygon cs (.multiPolygon polygons) rest
  | collection {cs rest : List Char} {gs : List Geometry} (h : CommaList member cs gs rest) :
    Contents member .collection cs (.collection gs) rest

/-- The tag of three ordinates where it is written. -/
inductive Tagged : List Char → List Char → Prop where
  | plain {cs : List Char} : Tagged cs cs
  | z {cs rest : List Char} (h : IsName "Z" cs rest) : Tagged cs rest

inductive Typed (member : Rule Geometry) : Rule Geometry where
  | empty {cs mid mid' rest : List Char} {t : GeometryType} (type : IsName t.name cs mid)
    (tag : Tagged mid mid') (h : IsName "EMPTY" mid' rest) : Typed member cs t.empty rest
  | full {cs mid mid' rest : List Char} {t : GeometryType} {g : Geometry}
    (type : IsName t.name cs mid) (tag : Tagged mid mid')
    (h : InParentheses (Contents member t) mid' g rest) : Typed member cs g rest

/-- Geometries with at most so many levels of members. -/
def IsGeometry : Nat → Rule Geometry
  | 0 => Typed fun _ _ _ => False
  | n + 1 => Typed (IsGeometry n)

/-! ## White space in front -/

theorem trimStart_trimStart (cs : List Char) : trimStart (trimStart cs) = trimStart cs :=
  List.dropWhile_idempotent ..

theorem IsName.trimmed {name : String} {cs rest : List Char} (h : IsName name cs rest) :
    IsName name (trimStart cs) rest := by
  obtain ⟨w, hw, hname⟩ := h
  exact ⟨w, ⟨(trimStart_trimStart cs).trans hw.text, hw.ne_nil, hw.letters, hw.ends⟩, hname⟩

theorem Typed.trimmed {M : Rule Geometry} {cs rest : List Char} {g : Geometry}
    (h : Typed M cs g rest) : Typed M (trimStart cs) g rest := by
  cases h with
  | empty type tag h => exact .empty type.trimmed tag h
  | full type tag h => exact .full type.trimmed tag h

theorem IsGeometry.trimmed {n : Nat} {cs rest : List Char} {g : Geometry}
    (h : IsGeometry n cs g rest) : IsGeometry n (trimStart cs) g rest := by
  cases n <;> exact Typed.trimmed h

/-! ## What is left is shorter -/

theorem length_trimStart_le (cs : List Char) : (trimStart cs).length ≤ cs.length :=
  (List.dropWhile_suffix _).length_le

/-- The rule takes at least one character that is not white space. -/
def Shortens (R : Rule α) : Prop :=
  ∀ ⦃cs a rest⦄, R cs a rest → rest.length < (trimStart cs).length

theorem IsMark.length_eq {c : Char} {cs rest : List Char} (h : IsMark c cs rest) :
    (trimStart cs).length = rest.length + 1 := congrArg List.length h

theorem IsWord.length_lt {cs w rest : List Char} (h : IsWord cs w rest) :
    rest.length < (trimStart cs).length := by
  have := List.length_pos_iff.2 h.ne_nil
  rw [h.text, List.length_append]
  omega

theorem IsName.length_lt {name : String} {cs rest : List Char} (h : IsName name cs rest) :
    rest.length < (trimStart cs).length := by
  obtain ⟨w, hw, -⟩ := h
  exact hw.length_lt

theorem Tagged.length_le {cs rest : List Char} (h : Tagged cs rest) : rest.length ≤ cs.length := by
  cases h with
  | plain => exact Nat.le_refl _
  | z h =>
    have := h.length_lt
    have := length_trimStart_le cs
    omega

theorem shortens_number : Shortens IsNumber := by
  rintro cs x rest ⟨run, htext, -, hx⟩
  have hne : run ≠ [] := by
    rintro rfl
    cases hx
  have := List.length_pos_iff.2 hne
  rw [htext, List.length_append]
  omega

theorem shortens_coord : Shortens IsCoord := by
  intro cs c rest h
  cases h with
  | @plane _ mid _ _ _ hx hy _ =>
    have := shortens_number hx
    have := shortens_number hy
    have := length_trimStart_le mid
    omega
  | @space _ mid mid' _ _ _ _ hx hy hz =>
    have := shortens_number hx
    have := shortens_number hy
    have := shortens_number hz
    have := length_trimStart_le mid
    have := length_trimStart_le mid'
    omega

theorem shortens_inParentheses {inner : Rule α} (h : Shortens inner) :
    Shortens (InParentheses inner) := by
  rintro cs a rest ⟨hl, ha, hr⟩
  rename_i mid mid'
  have := hl.length_eq
  have := h ha
  have := hr.length_eq
  have := length_trimStart_le mid
  have := length_trimStart_le mid'
  omega

theorem Further.length_le {item : Rule α} (hitem : Shortens item) {cs rest : List Char}
    {as : List α} (h : Further item cs as rest) :
    as.length + (trimStart rest).length ≤ (trimStart cs).length ∧ rest.length ≤ cs.length := by
  induction h with
  | nil => simp
  | @cons cs mid mid' rest a as comma head tail ih =>
    have := comma.length_eq
    have := hitem head
    have := length_trimStart_le cs
    have := length_trimStart_le mid
    have := length_trimStart_le mid'
    rw [List.length_cons]
    omega

theorem shortens_commaList {item : Rule α} (h : Shortens item) : Shortens (CommaList item) := by
  rintro cs as rest ⟨head, tail⟩
  have := h head
  have := (tail.length_le h).2
  omega

theorem shortens_line : Shortens IsLine :=
  shortens_inParentheses (shortens_commaList shortens_coord)

theorem shortens_rings : Shortens IsRings :=
  shortens_inParentheses (shortens_commaList shortens_line)

theorem shortens_memberPoint : Shortens IsMemberPoint := fun _ _ _ h =>
  h.elim (fun h => shortens_inParentheses shortens_coord h) fun h => shortens_coord h

theorem shortens_contents {member : Rule Geometry} (h : Shortens member) (t : GeometryType) :
    Shortens (Contents member t) := by
  intro cs g rest hg
  cases hg with
  | point hc => exact shortens_coord hc
  | lineString hc => exact shortens_commaList shortens_coord hc
  | polygon hc => exact shortens_commaList shortens_line hc
  | multiPoint hc => exact shortens_commaList shortens_memberPoint hc
  | multiLineString hc => exact shortens_commaList shortens_line hc
  | multiPolygon hc => exact shortens_commaList shortens_rings hc
  | collection hc => exact shortens_commaList h hc

theorem shortens_typed {member : Rule Geometry} (h : Shortens member) :
    Shortens (Typed member) := by
  intro cs g rest hg
  cases hg with
  | @empty _ mid mid' _ _ type tag h =>
    have := type.length_lt
    have := tag.length_le
    have := h.length_lt
    have := length_trimStart_le mid'
    omega
  | @full _ mid mid' _ _ _ type tag hc =>
    have := type.length_lt
    have := tag.length_le
    have := shortens_inParentheses (shortens_contents h _) hc
    have := length_trimStart_le mid'
    omega

theorem shortens_geometry (n : Nat) : Shortens (IsGeometry n) := by
  induction n with
  | zero => exact shortens_typed fun _ _ _ h => h.elim
  | succ n ih => exact shortens_typed ih

/-! ## Texts cut off -/

/-- What stands in front by the rule does so, too, when the text is cut off somewhere behind it. -/
def Local (R : Rule α) : Prop := ∀ ⦃cs a rest⦄, R cs a rest →
  ∃ u, cs = u ++ rest ∧ ∀ ⦃v b⦄, rest = v ++ b → R (u ++ v) a v

/-- One thing behind another. -/
def Rule.seq (R : Rule α) (S : Rule β) : Rule (α × β) := fun cs p rest =>
  ∃ mid, R cs p.1 mid ∧ S mid p.2 rest

variable {R : Rule α} {S : Rule β} {cs rest w : List Char}

/-- What follows by another rule from what stands in front by a local one. -/
theorem Local.imp {a : α} {b : β} (hR : Local R) (ha : R cs a rest)
    (h : ∀ {cs rest}, R cs a rest → S cs b rest) :
    ∃ u, cs = u ++ rest ∧ ∀ ⦃v w⦄, rest = v ++ w → S (u ++ v) b v := by
  obtain ⟨u, hu, hcut⟩ := hR ha
  exact ⟨u, hu, fun v w hv => h (hcut hv)⟩

theorem Local.seq (hR : Local R) (hS : Local S) : Local (R.seq S) := by
  rintro cs ⟨a, b⟩ rest ⟨mid, ha, hb⟩
  obtain ⟨u, rfl, hcut⟩ := hR ha
  obtain ⟨v, rfl, hcut'⟩ := hS hb
  refine ⟨u ++ v, (List.append_assoc ..).symm, fun x y hxy => ⟨v ++ x, ?_, hcut' hxy⟩⟩
  rw [List.append_assoc]
  exact hcut (by rw [hxy, List.append_assoc])

/-- What stands behind white space. -/
theorem exists_append_of_trimStart (h : trimStart cs = w ++ rest) (hne : w ≠ []) :
    ∃ u, cs = u ++ rest ∧ ∀ v, trimStart (u ++ v) = w ++ v := by
  obtain ⟨c, w, rfl⟩ := List.exists_cons_of_ne_nil hne
  have hsplit : cs.takeWhile isWhiteSpace ++ trimStart cs = cs := List.takeWhile_append_dropWhile
  refine ⟨cs.takeWhile isWhiteSpace ++ (c :: w), ?_, fun v => ?_⟩
  · rw [List.append_assoc, ← h, hsplit]
  · have hspace := List.all_eq_true.1 (List.all_takeWhile (p := isWhiteSpace) (l := cs))
    have hc : isWhiteSpace c = false := by
      have hhead := List.head?_dropWhile_not isWhiteSpace cs
      rw [show cs.dropWhile isWhiteSpace = _ from h] at hhead
      simpa using hhead
    rw [List.append_assoc, trimStart, List.dropWhile_append_of_pos hspace, List.cons_append,
      List.dropWhile_cons_of_neg (Bool.eq_false_iff.1 hc)]

theorem local_mark (c : Char) : Local fun cs (_ : Unit) rest => IsMark c cs rest := by
  intro cs _ rest h
  obtain ⟨u, hu, hcut⟩ := exists_append_of_trimStart (w := [c]) h (List.cons_ne_nil c [])
  exact ⟨u, hu, fun v b _ => hcut v⟩

theorem local_name (name : String) : Local fun cs (_ : Unit) rest => IsName name cs rest := by
  rintro cs _ rest ⟨w, hw, hname⟩
  obtain ⟨u, hu, hcut⟩ := exists_append_of_trimStart hw.text hw.ne_nil
  refine ⟨u, hu, fun v b hv => ⟨w, ⟨hcut v, hw.ne_nil, hw.letters, fun c hc => ?_⟩, hname⟩⟩
  refine hw.ends c ?_
  rw [hv, List.head?_append, hc]
  rfl

theorem local_number : Local IsNumber := by
  rintro cs x rest ⟨run, htext, hrun, hx⟩
  have hne : run ≠ [] := by
    rintro rfl
    cases hx
  obtain ⟨u, hu, hcut⟩ := exists_append_of_trimStart htext hne
  exact ⟨u, hu, fun v b hv => ⟨run, hcut v, numberRun_cut (b := b) (hv ▸ hrun), hx⟩⟩

theorem local_coord : Local IsCoord := by
  intro cs c rest h
  cases h with
  | plane hx hy hz =>
    obtain ⟨u, hu, hcut⟩ := (local_number.seq local_number) (a := (_, _)) ⟨_, hx, hy⟩
    refine ⟨u, hu, fun v b hv => ?_⟩
    obtain ⟨mid, hx, hy⟩ := hcut hv
    refine .plane hx hy ?_
    -- the character that comes next is the same, or there is none any more
    cases hs : trimStart v with
    | nil => rfl
    | cons e es =>
      obtain ⟨s, rfl, hs'⟩ := exists_append_of_trimStart (w := [e]) hs (List.cons_ne_nil e [])
      rw [hv, List.append_assoc, hs'] at hz
      exact hz
  | space hx hy hz =>
    exact (local_number.seq (local_number.seq local_number)).imp (a := (_, _, _))
      ⟨_, hx, _, hy, hz⟩ fun ⟨_, hx, _, hy, hz⟩ => .space hx hy hz

theorem local_inParentheses (h : Local R) : Local (InParentheses R) := by
  rintro cs a rest ⟨hl, ha, hr⟩
  exact ((local_mark '(').seq (h.seq (local_mark ')'))).imp (a := ((), a, ())) ⟨_, hl, _, ha, hr⟩
    fun ⟨_, hl, _, ha, hr⟩ => .intro hl ha hr

theorem local_further (h : Local R) : Local (Further R) := by
  intro cs as rest has
  induction has with
  | nil => exact ⟨[], rfl, fun v b _ => .nil⟩
  | cons comma head tail ih =>
    obtain ⟨u, hu, hcut⟩ := ((local_mark ',').seq h) (a := ((), _)) ⟨_, comma, head⟩
    obtain ⟨u', rfl, hcut'⟩ := ih
    refine ⟨u ++ u', by rw [hu, List.append_assoc], fun v b hv => ?_⟩
    obtain ⟨mid, comma, head⟩ := hcut (v := u' ++ v) (by rw [hv, List.append_assoc])
    rw [List.append_assoc]
    exact .cons comma head (hcut' hv)

theorem local_commaList (h : Local R) : Local (CommaList R) := by
  rintro cs as rest ⟨head, tail⟩
  exact (h.seq (local_further h)).imp (a := (_, _)) ⟨_, head, tail⟩
    fun ⟨_, head, tail⟩ => .intro head tail

theorem local_line : Local IsLine := local_inParentheses (local_commaList local_coord)

theorem local_rings : Local IsRings := local_inParentheses (local_commaList local_line)

theorem local_memberPoint : Local IsMemberPoint := by
  rintro cs c rest (hc | hc)
  · exact (local_inParentheses local_coord).imp hc .inl
  · exact local_coord.imp hc .inr

theorem local_contents {M : Rule Geometry} (hM : Local M) (t : GeometryType) :
    Local (Contents M t) := by
  intro cs g rest hg
  cases hg with
  | point hc => exact local_coord.imp hc .point
  | lineString hc => exact (local_commaList local_coord).imp hc .lineString
  | polygon hc => exact (local_commaList local_line).imp hc .polygon
  | multiPoint hc => exact (local_commaList local_memberPoint).imp hc .multiPoint
  | multiLineString hc => exact (local_commaList local_line).imp hc .multiLineString
  | multiPolygon hc => exact (local_commaList local_rings).imp hc .multiPolygon
  | collection hc => exact (local_commaList hM).imp hc .collection

theorem local_tagged : Local fun cs (_ : Unit) rest => Tagged cs rest := by
  rintro cs _ rest (_ | hz)
  · exact ⟨[], rfl, fun v b _ => .plain⟩
  · exact (local_name "Z").imp (S := fun cs (_ : Unit) rest => Tagged cs rest) (a := ()) (b := ())
      hz .z

theorem local_typed {M : Rule Geometry} (hM : Local M) : Local (Typed M) := by
  intro cs g rest hg
  cases hg with
  | @empty _ _ _ _ t type tag h =>
    exact ((local_name t.name).seq (local_tagged.seq (local_name "EMPTY"))).imp (a := ((), (), ()))
      ⟨_, type, _, tag, h⟩ fun ⟨_, type, _, tag, h⟩ => .empty type tag h
  | @full _ _ _ _ t _ type tag h =>
    exact ((local_name t.name).seq (local_tagged.seq
      (local_inParentheses (local_contents hM t)))).imp (a := ((), (), _))
      ⟨_, type, _, tag, h⟩ fun ⟨_, type, _, tag, h⟩ => .full type tag h

theorem local_geometry (n : Nat) : Local (IsGeometry n) := by
  induction n with
  | zero => exact local_typed fun _ _ _ h => h.elim
  | succ n ih => exact local_typed ih

/-! ## Levels -/

/-- In texts of at most `k` characters, what stands in front by the one rule does so by the other.
-/
def Agrees (k : Nat) (R S : Rule α) : Prop :=
  ∀ ⦃cs a rest⦄, cs.length ≤ k → R cs a rest → S cs a rest

theorem Further.agrees {k : Nat} {R S : Rule α} (hR : Shortens R) (h : Agrees k R S) :
    Agrees k (Further R) (Further S) := by
  intro cs as rest hk hs
  induction hs with
  | nil => exact .nil
  | @cons cs mid mid' rest a as comma head tail ih =>
    have := comma.length_eq
    have := hR head
    have := length_trimStart_le cs
    have := length_trimStart_le mid
    exact .cons comma (h (by omega) head) (ih (by omega))

theorem CommaList.agrees {k : Nat} {R S : Rule α} (hR : Shortens R) (h : Agrees k R S) :
    Agrees k (CommaList R) (CommaList S) := by
  rintro cs as rest hk ⟨head, tail⟩
  rename_i mid a as
  have := hR head
  have := length_trimStart_le cs
  exact .intro (h hk head) (Further.agrees hR h (by omega) tail)

theorem Contents.agrees {k : Nat} {R S : Rule Geometry} (hR : Shortens R) (h : Agrees k R S)
    (t : GeometryType) : Agrees k (Contents R t) (Contents S t) := by
  intro cs g rest hk hg
  cases hg with
  | point hc => exact .point hc
  | lineString hc => exact .lineString hc
  | polygon hc => exact .polygon hc
  | multiPoint hc => exact .multiPoint hc
  | multiLineString hc => exact .multiLineString hc
  | multiPolygon hc => exact .multiPolygon hc
  | collection hc => exact .collection (CommaList.agrees hR h hk hc)

/-- Members stand in shorter texts than the geometry. -/
theorem Typed.agrees {k : Nat} {R S : Rule Geometry} (hR : Shortens R) (h : Agrees k R S) :
    Agrees (k + 1) (Typed R) (Typed S) := by
  intro cs g rest hk hg
  cases hg with
  | empty type tag h => exact .empty type tag h
  | @full _ mid mid' _ _ _ type tag hc =>
    obtain ⟨hl, hc, hr⟩ := hc
    have := type.length_lt
    have := tag.length_le
    have := hl.length_eq
    have := length_trimStart_le cs
    have := length_trimStart_le mid'
    exact .full type tag (.intro hl (Contents.agrees hR h _ (by omega) hc) hr)

theorem IsGeometry.level {n m : Nat} {cs rest : List Char} {g : Geometry} (hm : cs.length ≤ m)
    (h : IsGeometry n cs g rest) : IsGeometry m cs g rest := by
  induction m generalizing n cs g rest with
  | zero =>
    have := shortens_geometry n h
    have := length_trimStart_le cs
    omega
  | succ m ih =>
    cases n with
    | zero => exact Typed.agrees (fun _ _ _ h => h.elim) (fun _ _ _ _ h => h.elim) hm h
    | succ n => exact Typed.agrees (shortens_geometry n) (fun _ _ _ hk h => ih hk h) hm h

end FeatureFilter.Wkt
