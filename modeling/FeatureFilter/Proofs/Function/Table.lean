import FeatureFilter.Function.Json
import Mathlib.Data.List.Forall2
import Mathlib.Data.List.TakeWhile

/-!
# Tables of functions

A table is added to a catalog in place: it is read, all its signatures are judged, and only then is
the first of them entered. Such a load does all of its work or none of it. Of several signatures for
one name the last one counts, and what the catalog knew under other names stays.
-/

namespace FeatureFilter

/-! ## Signatures that make sense -/

/-- Nothing is left of a text between its white spaces just if it has nothing else. -/
theorem trim_eq_nil {cs : List Char} : trim cs = [] ↔ ∀ c ∈ cs, isWhiteSpace c = true := by
  rw [trim, List.reverse_eq_nil_iff, trimStart, List.dropWhile_eq_nil_iff]
  simp only [List.mem_reverse]
  constructor
  · intro h c hc
    rw [← List.takeWhile_append_dropWhile (p := isWhiteSpace) (l := cs), List.mem_append] at hc
    exact hc.elim List.mem_takeWhile_imp (h c)
  · intro h c hc
    exact h c ((List.dropWhile_sublist _).mem hc)

namespace Signature

/-- What a signature is like that makes sense. -/
structure Sensible (s : Signature) : Prop where
  /-- The name has more to it than white space. -/
  named : ∃ c ∈ s.name.toList, isWhiteSpace c = false
  ordered : ∀ most ∈ s.maxArgs, s.minArgs ≤ most
  /-- A predicate can be given two arguments. -/
  takesPair : s.kind.isPredicate = true → s.minArgs ≤ 2 ∧ ∀ most ∈ s.maxArgs, 2 ≤ most

theorem accepts_iff {s : Signature} {count : Nat} :
    s.accepts count = true ↔ s.minArgs ≤ count ∧ ∀ most ∈ s.maxArgs, count ≤ most := by
  simp [accepts, Option.all_eq_true]

theorem defect?_eq_none {s : Signature} : s.defect? = none ↔ s.Sensible := by
  have hname : (trim s.name.toList).isEmpty = false ↔
      ∃ c ∈ s.name.toList, isWhiteSpace c = false := by
    rw [← Bool.not_eq_true, List.isEmpty_iff, trim_eq_nil]
    simp
  have hbounds : s.maxArgs.any (· < s.minArgs) = false ↔ ∀ most ∈ s.maxArgs, s.minArgs ≤ most := by
    simp [Option.any_eq_false]
  have hpair : (s.kind.isPredicate && !s.accepts 2) = false ↔
      (s.kind.isPredicate = true → s.minArgs ≤ 2 ∧ ∀ most ∈ s.maxArgs, 2 ≤ most) := by
    rw [← accepts_iff]
    cases s.kind.isPredicate <;> simp
  have hdefect : s.defect? = none ↔ (trim s.name.toList).isEmpty = false ∧
      s.maxArgs.any (· < s.minArgs) = false ∧ (s.kind.isPredicate && !s.accepts 2) = false := by
    rw [defect?]
    cases (trim s.name.toList).isEmpty <;> cases s.maxArgs.any (· < s.minArgs) <;>
      cases s.kind.isPredicate && !s.accepts 2 <;> simp
  rw [hdefect, hname, hbounds, hpair]
  exact ⟨fun ⟨hn, ho, hp⟩ => ⟨hn, ho, hp⟩, fun ⟨hn, ho, hp⟩ => ⟨hn, ho, hp⟩⟩

inductive Verdict : List Signature → Except SignatureError Unit → Prop where
  | sensible {ss : List Signature} (h : ∀ s ∈ ss, s.Sensible) : Verdict ss (.ok ())
  | flawed {before after : List Signature} {s : Signature} {d : SignatureDefect}
      (hbefore : ∀ t ∈ before, t.Sensible) (hs : s.defect? = some d) :
      Verdict (before ++ s :: after) (.error ⟨s.name, d⟩)

theorem verdict_forM (ss : List Signature) : Verdict ss (ss.forM validate) := by
  induction ss with
  | nil => exact .sensible nofun
  | cons s ss ih =>
    show Verdict (s :: ss) (s.validate >>= fun _ => ss.forM validate)
    cases hs : s.defect? with
    | some d =>
      rw [validate, hs]
      exact @Verdict.flawed [] ss s d nofun hs
    | none =>
      have hsensible := defect?_eq_none.1 hs
      rw [validate, hs]
      show Verdict (s :: ss) (ss.forM validate)
      generalize ss.forM validate = x at ih
      cases ih with
      | sensible h => exact .sensible (List.forall_mem_cons.2 ⟨hsensible, h⟩)
      | @flawed before _ _ _ h ht =>
        exact @Verdict.flawed (s :: before) _ _ _ (List.forall_mem_cons.2 ⟨hsensible, h⟩) ht

end Signature

namespace Catalog

/-! ## The signatures of a table -/

theorem mapM_eq_some_iff {α β : Type} {f : α → Option β} {as : List α} {bs : List β} :
    as.mapM f = some bs ↔ List.Forall₂ (fun a b => f a = some b) as bs := by
  induction as generalizing bs with
  | nil => simp [eq_comm]
  | cons a as ih =>
    rw [List.mapM_cons, List.forall₂_cons_left_iff]
    simp only [Option.bind_eq_bind, Option.bind_eq_some_iff, ih, Option.pure_def, Option.some.injEq]
    exact ⟨fun ⟨b, hb, bs', hbs, h⟩ => ⟨b, bs', hb, hbs, h.symm⟩,
      fun ⟨b, bs', hb, hbs, h⟩ => ⟨b, hb, bs', hbs, h.symm⟩⟩

/-- A text is the table of some signatures: an array with their forms in order. -/
def IsTable (text : String) (ss : List Signature) : Prop :=
  ∃ items, Json.read? text = some (.array items) ∧
    List.Forall₂ (fun j s => Signature.ofJson? j = some s) items ss

theorem readTable?_eq_some {text : String} {ss : List Signature} :
    readTable? text = some ss ↔ IsTable text ss := by
  rw [readTable?, Option.bind_eq_some_iff]
  constructor
  · rintro ⟨j, hj, hss⟩
    cases j with
    | array items => exact ⟨items, hj, mapM_eq_some_iff.1 hss⟩
    | _ => exact nomatch hss
  · rintro ⟨items, hj, hss⟩
    exact ⟨_, hj, mapM_eq_some_iff.2 hss⟩

theorem readTable?_eq_none {text : String} : readTable? text = none ↔ ∀ ss, ¬ IsTable text ss := by
  rw [Option.eq_none_iff_forall_ne_some]
  exact forall_congr' fun ss => not_congr readTable?_eq_some

/-- The last of some signatures whose name has the same lower-case form as the given one. -/
def lastNamed? (ss : List Signature) (name : String) : Option Signature :=
  (ss.filter fun s => lowercase s.name == lowercase name).getLast?

theorem lookup_registerAll (ss : List Signature) (c : Catalog) (name : String) :
    (c.registerAll ss).lookup name = (lastNamed? ss name).or (c.lookup name) := by
  induction ss generalizing c with
  | nil => rfl
  | cons s ss ih =>
    rw [registerAll, List.foldl_cons, ← registerAll, ih, lookup_register, lastNamed?]
    by_cases h : lowercase s.name = lowercase name
    · simp [h, lastNamed?, List.getLast?_cons]
    · simp [h, lastNamed?]

/-! ## Loading in place -/

/-- A program that changes a catalog and may fail on the way. What it has changed until then stays.
-/
abbrev Loader := ExceptT TableError (StateM Catalog)

def judge (s : Signature) : Loader Unit :=
  ExceptT.mk (pure (s.validate.mapError .invalidSignature))

def enter (s : Signature) : Loader Unit := modify (·.register s)

def load (text : String) : Loader Unit := do
  let some ss := readTable? text | throw .malformed
  ss.forM judge
  ss.forM enter

section Runs

variable {α β : Type} {x : Loader α} {f : α → Loader β} {c c' : Catalog}

theorem run_bind_of_ok {a : α} (h : x.run.run c = (.ok a, c')) :
    (x >>= f).run.run c = (f a).run.run c' := by
  rw [ExceptT.run_bind, StateT.run_bind, h]
  rfl

theorem run_bind_of_error {e : TableError} (h : x.run.run c = (.error e, c')) :
    (x >>= f).run.run c = (.error e, c') := by
  rw [ExceptT.run_bind, StateT.run_bind, h]
  rfl

end Runs

/-- Judging leaves the catalog alone. -/
theorem forM_judge (ss : List Signature) (c : Catalog) :
    (ss.forM judge).run.run c = ((ss.forM Signature.validate).mapError .invalidSignature, c) := by
  induction ss with
  | nil => rfl
  | cons s ss ih =>
    show (judge s >>= fun _ => ss.forM judge).run.run c =
      ((s.validate >>= fun _ => ss.forM Signature.validate).mapError .invalidSignature, c)
    have hjudge : (judge s).run.run c = (s.validate.mapError .invalidSignature, c) := rfl
    cases h : s.validate with
    | error e => exact run_bind_of_error (hjudge.trans (by rw [h]; rfl))
    | ok a => exact (run_bind_of_ok (hjudge.trans (by rw [h]; rfl))).trans ih

theorem forM_enter (ss : List Signature) (c : Catalog) :
    (ss.forM enter).run.run c = (.ok (), c.registerAll ss) := by
  induction ss generalizing c with
  | nil => rfl
  | cons s ss ih => exact ih (c.register s)

/-- A catalog that is given back in full stands for one that is changed in place. -/
def inPlace (c : Catalog) : Except TableError Catalog → Except TableError Unit × Catalog
  | .ok c' => (.ok (), c')
  | .error e => (.error e, c)

theorem extend_eq (c : Catalog) (ss : List Signature) :
    c.extend ss = (ss.forM Signature.validate).map fun _ => c.registerAll ss := rfl

/-- Loading in place comes to what `extendFromTable` gives back. -/
theorem load_eq (text : String) (c : Catalog) :
    (load text).run.run c = c.inPlace (c.extendFromTable text) := by
  rw [load, extendFromTable]
  cases readTable? text with
  | none => rfl
  | some ss =>
    show (ss.forM judge >>= fun _ => ss.forM enter).run.run c =
      c.inPlace ((c.extend ss).mapError .invalidSignature)
    have hjudge := forM_judge ss c
    rw [extend_eq]
    cases h : ss.forM Signature.validate with
    | error e => exact run_bind_of_error (hjudge.trans (by rw [h]; rfl))
    | ok a => exact (run_bind_of_ok (hjudge.trans (by rw [h]; rfl))).trans (forM_enter ss c)

/-- What loading a table comes to. -/
inductive Loaded (c : Catalog) (text : String) : Except TableError Unit × Catalog → Prop where
  | malformed (h : ∀ ss, ¬ IsTable text ss) : Loaded c text (.error .malformed, c)
  | flawed {before after : List Signature} {s : Signature} {d : SignatureDefect}
      (h : IsTable text (before ++ s :: after)) (hbefore : ∀ t ∈ before, t.Sensible)
      (hs : s.defect? = some d) : Loaded c text (.error (.invalidSignature ⟨s.name, d⟩), c)
  | entered {ss : List Signature} {c' : Catalog} (h : IsTable text ss) (hss : ∀ s ∈ ss, s.Sensible)
      (hlookup : ∀ name, c'.lookup name = (lastNamed? ss name).or (c.lookup name)) :
      Loaded c text (.ok (), c')

theorem loaded_load (text : String) (c : Catalog) : c.Loaded text ((load text).run.run c) := by
  rw [load_eq, extendFromTable]
  cases htable : readTable? text with
  | none => exact .malformed (readTable?_eq_none.1 htable)
  | some ss =>
    have hss := readTable?_eq_some.1 htable
    have hverdict := Signature.verdict_forM ss
    show c.Loaded text (c.inPlace ((c.extend ss).mapError .invalidSignature))
    rw [extend_eq]
    generalize ss.forM Signature.validate = x at hverdict
    cases hverdict with
    | sensible h => exact .entered hss h (lookup_registerAll ss c)
    | flawed hbefore hs => exact .flawed hss hbefore hs

/-! ## Catalogs that are built up -/

/-- Every signature is kept under the lower-case form of its own name, and one at most under each.
-/
structure Keyed (c : Catalog) : Prop where
  key : ∀ entry ∈ c.entries, entry.1 = lowercase entry.2.name
  nodup : (c.entries.map Prod.fst).Nodup

namespace Keyed

variable {c : Catalog}

theorem empty : empty.Keyed := ⟨nofun, .nil⟩

theorem register (h : c.Keyed) (s : Signature) : (c.register s).Keyed := by
  have hkey : ∀ entry ∈ c.entries.filter fun entry => entry.1 != lowercase s.name,
      entry.1 = lowercase entry.2.name := fun entry hentry =>
    h.key entry (List.mem_of_mem_filter hentry)
  refine ⟨List.forall_mem_cons.2 ⟨rfl, hkey⟩,
    List.nodup_cons.2 ⟨fun hmem => ?_, (List.filter_sublist.map _).nodup h.nodup⟩⟩
  obtain ⟨entry, hentry, hkey⟩ := List.mem_map.1 hmem
  exact absurd hkey (by simpa using List.of_mem_filter hentry)

theorem registerAll (h : c.Keyed) (ss : List Signature) : (c.registerAll ss).Keyed := by
  induction ss generalizing c with
  | nil => exact h
  | cons s ss ih => exact ih (h.register s)

theorem standard : standard.Keyed := empty.registerAll standardFunctions

/-- Whatever comes of loading a table. -/
theorem load (h : c.Keyed) (text : String) : ((load text).run.run c).2.Keyed := by
  rw [load_eq, extendFromTable]
  cases readTable? text with
  | none => exact h
  | some ss =>
    show (c.inPlace ((c.extend ss).mapError .invalidSignature)).2.Keyed
    rw [extend_eq]
    cases ss.forM Signature.validate with
    | error e => exact h
    | ok a => exact h.registerAll ss

/-- The entries under a key are the one that is found there, if any. -/
theorem filter_entries (h : c.Keyed) (key : String) :
    c.entries.filter (fun entry => entry.1 == key) =
      (c.entries.find? fun entry => entry.1 == key).toList := by
  have hnodup := h.nodup
  generalize c.entries = entries at hnodup
  induction entries with
  | nil => rfl
  | cons entry entries ih =>
    obtain ⟨hentry, hentries⟩ := List.nodup_cons.1 hnodup
    by_cases hkey : entry.1 = key
    · have hnone : ∀ other ∈ entries, ¬ (other.1 == key) = true := fun other hother ho =>
        hentry (List.mem_map.2 ⟨other, hother, (beq_iff_eq.1 ho).trans hkey.symm⟩)
      simp [hkey, List.filter_eq_nil_iff.2 hnone]
    · simp [hkey, ih hentries]

/-- The names with one lower-case form are the one of the signature that such a name stands for, if
any. -/
theorem filter_names (h : c.Keyed) (name : String) :
    c.names.filter (fun other => lowercase other == lowercase name) =
      ((c.lookup name).map Signature.name).toList := by
  have hentries : c.entries.filter (fun entry => lowercase entry.2.name == lowercase name) =
      (c.entries.find? fun entry => entry.1 == lowercase name).toList := by
    rw [← h.filter_entries]
    exact List.filter_congr fun entry hentry => by rw [h.key entry hentry]
  have hperm := (List.mergeSort_perm (c.entries.map (·.2.name)) fun a b => a ≤ b).filter
    fun other => lowercase other == lowercase name
  have hmap : (c.entries.map (·.2.name)).filter (fun other => lowercase other == lowercase name) =
      ((c.lookup name).map Signature.name).toList := by
    rw [List.filter_map]
    show (c.entries.filter fun entry => lowercase entry.2.name == lowercase name).map _ = _
    rw [hentries, lookup, Option.map_map, Option.toList_map]
    rfl
  rw [hmap] at hperm
  rw [names]
  generalize c.lookup name = found at hperm ⊢
  cases found with
  | none => exact hperm.eq_nil
  | some s => exact List.perm_singleton.1 hperm

end Keyed

/-- The catalogs that come of an empty one, or of the one of the filter language, by entering
signatures and loading tables. -/
inductive Reachable : Catalog → Prop where
  | empty : Reachable empty
  | standard : Reachable standard
  | register {c : Catalog} (h : Reachable c) (s : Signature) : Reachable (c.register s)
  | load {c : Catalog} (h : Reachable c) (text : String) : Reachable ((load text).run.run c).2

theorem Reachable.keyed {c : Catalog} (h : c.Reachable) : c.Keyed := by
  induction h with
  | empty => exact .empty
  | standard => exact .standard
  | register _ s ih => exact ih.register s
  | load _ text ih => exact ih.load text

/-- A load leaves the catalog as it was, or enters all signatures of a table that all make sense; a
name then stands for the last of them that has it but for case, and else for what it stood for.
Whatever was entered and loaded before, the keys of a catalog are the lower-case forms of the names
of their own signatures, so that the names are all different but for case. -/
theorem load_all_or_nothing :
    (∀ text c, (load text).run.run c = c.inPlace (c.extendFromTable text) ∧
      c.Loaded text ((load text).run.run c)) ∧
    ∀ c, Reachable c → c.Keyed ∧ ∀ name,
      c.names.filter (fun other => lowercase other == lowercase name) =
        ((c.lookup name).map Signature.name).toList :=
  ⟨fun text c => ⟨load_eq text c, loaded_load text c⟩,
    fun _ h => ⟨h.keyed, h.keyed.filter_names⟩⟩

/-- The later of two signatures of a table takes the place of the earlier one, and of the one that
the filter language has under the same name. -/
theorem load_all_or_nothing_override :
    let text :=
      "[\x7b\"name\": \"ABS\", \"min_args\": 2\x7d, \x7b\"name\": \"aBs\", \"min_args\": 0\x7d]"
    let c := ((load text).run.run standard).2
    Reachable c ∧ c.lookup "Abs" = some (.variadic "aBs" 0) ∧
      c.names.filter (fun other => lowercase other == lowercase "Abs") = ["aBs"] := by
  intro text c
  have hc : Reachable c := .load .standard text
  have hlookup : c.lookup "Abs" = some (.variadic "aBs" 0) := by decide +kernel
  have hnames := (load_all_or_nothing.2 c hc).2 "Abs"
  rw [hlookup] at hnames
  exact ⟨hc, hlookup, hnames⟩

end Catalog

end FeatureFilter
