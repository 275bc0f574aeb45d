import FeatureFilter.Json
import Mathlib.Data.List.Basic

/-!
# Reading what is written

What a writer of documents puts together a reader takes apart: lists item by item, values that may
be absent, and records by the names of their fields. The parts of a document are less deep than the
document.
-/

namespace FeatureFilter

theorem mapM_eq_some {α β : Type} {f : α → Option β} {g : α → β} {as : List α}
    (h : ∀ a ∈ as, f a = some (g a)) : as.mapM f = some (as.map g) := by
  induction as with
  | nil => rfl
  | cons a as ih =>
    obtain ⟨ha, has⟩ := List.forall_mem_cons.1 h
    rw [List.mapM_cons, ha, ih has]
    rfl

namespace Json

variable {α : Type} {read : Json → Option α} {write : α → Json}

/-! ## Depth -/

theorem one_le_depth (j : Json) : 1 ≤ j.depth := by
  cases j with
  | array | object => exact Nat.le_add_left ..
  | _ => exact Nat.le_refl _

theorem depth_le_depthAll {j : Json} {js : List Json} (h : j ∈ js) : j.depth ≤ depthAll js := by
  induction js with
  | nil => exact absurd h List.not_mem_nil
  | cons i js ih =>
    rw [depthAll]
    rcases List.mem_cons.1 h with rfl | h
    · exact Nat.le_max_left ..
    · exact Nat.le_trans (ih h) (Nat.le_max_right ..)

theorem depth_le_depthFields {name : String} {j : Json} {fields : List (String × Json)}
    (h : (name, j) ∈ fields) : j.depth ≤ depthFields fields := by
  induction fields with
  | nil => exact absurd h List.not_mem_nil
  | cons field fields ih =>
    obtain ⟨key, i⟩ := field
    rw [depthFields]
    rcases List.mem_cons.1 h with h | h
    · cases h
      exact Nat.le_max_left ..
    · exact Nat.le_trans (ih h) (Nat.le_max_right ..)

theorem depth_lt_array {j : Json} {js : List Json} (h : j ∈ js) : j.depth < (array js).depth :=
  Nat.lt_succ_of_le (depth_le_depthAll h)

theorem depth_lt_object {name : String} {j : Json} {fields : List (String × Json)}
    (h : (name, j) ∈ fields) : j.depth < (object fields).depth :=
  Nat.lt_succ_of_le (depth_le_depthFields h)

theorem depth_lt_tagged (tag : String) (payload : Json) :
    payload.depth < (tagged tag payload).depth :=
  depth_lt_object (List.mem_singleton_self _)

theorem depth_lt_record {tag : String} (name : String) {j : Json} {fields : List (String × Json)}
    (h : (name, j) ∈ fields) : j.depth < (tagged tag (object fields)).depth :=
  Nat.lt_trans (depth_lt_object h) (depth_lt_tagged ..)

/-! ## Lists and values that may be absent -/

theorem list?_map {as : List α} (h : ∀ a ∈ as, read (write a) = some a) :
    (array (as.map write)).list? read = some as := by
  show (as.map write).mapM read = some as
  have hread := mapM_eq_some (f := read ∘ write) (g := id) h
  rw [List.mapM_map, hread, List.map_id]

theorem nullable?_ofOption {o : Option α}
    (h : ∀ a, o = some a → write a ≠ null ∧ read (write a) = some a) :
    (ofOption write o).nullable? read = some o := by
  cases o with
  | none => rfl
  | some a =>
    obtain ⟨hne, ha⟩ := h a rfl
    rw [ofOption]
    generalize write a = j at ha hne
    cases j with
    | null => exact absurd rfl hne
    | _ => rw [nullable?, ha, Option.map_some]; exact nofun

/-! ## Records -/

section Records

variable {fields : List (String × Json)}

theorem filter_eq_of_mem {isNamed : String × Json → Bool} {name : String} {j : Json}
    (hnamed : ∀ field, isNamed field = (field.1 == name)) (hnodup : (fields.map Prod.fst).Nodup)
    (h : (name, j) ∈ fields) : fields.filter isNamed = [(name, j)] := by
  induction fields with
  | nil => exact absurd h List.not_mem_nil
  | cons field fields ih =>
    obtain ⟨hkey, hrest⟩ := List.nodup_cons.1 hnodup
    rcases List.mem_cons.1 h with rfl | h
    · rw [List.filter_cons_of_pos (by simp [hnamed]), List.filter_eq_nil_iff.2]
      intro field hfield hk
      rw [hnamed] at hk
      exact hkey (List.mem_map.2 ⟨field, hfield, beq_iff_eq.1 hk⟩)
    · have hne : field.1 ≠ name := fun hk => hkey (List.mem_map.2 ⟨_, h, hk.symm⟩)
      rw [List.filter_cons_of_neg (by simpa [hnamed] using hne), ih hrest h]

theorem field?_of_mem {name : String} {j : Json} (hnodup : (fields.map Prod.fst).Nodup)
    (h : (name, j) ∈ fields) : field? fields name = some (some j) := by
  rw [field?, filter_eq_of_mem (fun _ => rfl) hnodup h]

theorem fields?_object {names : List String} (hnames : fields.map Prod.fst = names)
    (hnodup : names.Nodup) :
    (object fields).fields? names = some (fields.map fun field => some field.2) := by
  subst hnames
  show (fields.map Prod.fst).mapM (field? fields) = _
  rw [List.mapM_map]
  exact mapM_eq_some fun field h => field?_of_mem hnodup h

end Records

end Json

end FeatureFilter
