import FeatureFilter.Proofs.Filter.Tree

/-!
# Equality of trees

Trees are compared with numbers as numbers and timestamps as instants. Equality is symmetric, and
finite trees are equal to themselves. The text of a geometry is read as an equal geometry exactly
when the geometry can be written (`Geometry.text_read_back_iff`).
-/

namespace FeatureFilter

/-! ## Lists -/

section Lists

variable {α : Type} [BEq α] {as bs : List α}

theorem beq_list_iff : (as == bs) = true ↔ List.Forall₂ (fun a b => (a == b) = true) as bs := by
  induction as generalizing bs with
  | nil => cases bs <;> simp
  | cons a as ih =>
    cases bs with
    | nil => simp
    | cons b bs => simp [ih]

theorem beq_list_self (h : ∀ a ∈ as, (a == a) = true) : (as == as) = true :=
  beq_list_iff.2 (List.forall₂_same.2 h)

theorem beq_list_symm (hs : ∀ a b : α, (a == b) = true → (b == a) = true) (h : (as == bs) = true) :
    (bs == as) = true :=
  beq_list_iff.2 ((beq_list_iff.1 h).flip.imp fun b a h => hs a b h)

theorem beq_option_self {a : Option α} (h : ∀ x, a = some x → (x == x) = true) :
    (a == a) = true := by
  cases a with
  | none => rfl
  | some x => exact h x rfl

theorem beq_option_symm (hs : ∀ a b : α, (a == b) = true → (b == a) = true) {a b : Option α}
    (h : (a == b) = true) : (b == a) = true := by
  cases a with
  | none => cases b with
    | none => rfl
    | some y => cases h
  | some x => cases b with
    | none => cases h
    | some y => exact hs x y h

end Lists

/-! ## Numbers and geometries -/

namespace Binary64

theorem beq_self {x : Binary64} (h : x.isFinite = true) : (x == x) = true := by
  cases x with
  | finite x => exact (beq_self_eq_true x.toInt : (x.toInt == x.toInt) = true)
  | infinity b => cases h
  | nan => cases h

theorem beq_symm (x y : Binary64) (h : (x == y) = true) : (y == x) = true := by
  cases x with
  | finite x =>
    cases y with
    | finite y =>
      have hxy : (x.toInt == y.toInt) = true := h
      show (y.toInt == x.toInt) = true
      exact beq_iff_eq.2 (beq_iff_eq.1 hxy).symm
    | _ => cases h
  | infinity a =>
    cases y with
    | infinity b =>
      have hab : (a == b) = true := h
      show (b == a) = true
      exact beq_iff_eq.2 (beq_iff_eq.1 hab).symm
    | _ => cases h
  | nan => cases h

end Binary64

namespace Coord

theorem beq_iff {a b : Coord} :
    (a == b) = true ↔ (a.x == b.x) = true ∧ (a.y == b.y) = true ∧ (a.z == b.z) = true := by
  show (a.x == b.x && a.y == b.y && a.z == b.z) = true ↔ _
  rw [Bool.and_eq_true, Bool.and_eq_true, and_assoc]

theorem beq_self {c : Coord} (h : c.IsNumber) : (c == c) = true := by
  have hz : ∀ z, c.z = some z → z ≠ .nan := by
    rintro z hz rfl
    exact h.2.2 hz
  exact beq_iff.2 ⟨Binary64.beq_self_iff.2 h.1, Binary64.beq_self_iff.2 h.2.1,
    beq_option_self fun z h => Binary64.beq_self_iff.2 (hz z h)⟩

theorem beq_symm (a b : Coord) (h : (a == b) = true) : (b == a) = true := by
  obtain ⟨hx, hy, hz⟩ := beq_iff.1 h
  exact beq_iff.2 ⟨Binary64.beq_symm _ _ hx, Binary64.beq_symm _ _ hy,
    beq_option_symm Binary64.beq_symm hz⟩

end Coord

namespace Geometry

mutual

/-- A geometry equals itself when its ordinates are numbers. -/
theorem beq_self_of_number : ∀ {g : Geometry}, (∀ c ∈ g.coords, c.IsNumber) → beq g g = true
  | point _, h => beq_option_self fun p hp => Coord.beq_self (h p (by simp [coords, hp]))
  | lineString _, h | multiPoint _, h => beq_list_self fun c hc => Coord.beq_self (h c hc)
  | polygon _, h | multiLineString _, h => beq_list_self fun r hr => beq_list_self fun c hc =>
    Coord.beq_self (h c (List.mem_flatten_of_mem hr hc))
  | multiPolygon _, h =>
    beq_list_self fun p hp => beq_list_self fun r hr => beq_list_self fun c hc =>
    Coord.beq_self (h c (List.mem_flatten_of_mem (List.mem_flatten_of_mem hp hr) hc))
  | collection _, h => beqAll_self_of_number h

theorem beqAll_self_of_number : ∀ {gs : List Geometry}, (∀ c ∈ coordsAll gs, c.IsNumber) →
    beqAll gs gs = true
  | [], _ => rfl
  | g :: gs, h => by
    obtain ⟨hg, hgs⟩ := List.forall_mem_append.1 h
    have hg : beq g g = true := beq_self_of_number hg
    have hgs : beqAll gs gs = true := beqAll_self_of_number hgs
    rw [beqAll, hg, hgs, Bool.and_self]

end

mutual

theorem beq_symm : ∀ {a b : Geometry}, beq a b = true → beq b a = true := by
  intro a b h
  cases a with
  | point p =>
    cases b with
    | point q => exact beq_option_symm Coord.beq_symm h
    | _ => cases h
  | lineString cs =>
    cases b with
    | lineString ds => exact beq_list_symm Coord.beq_symm h
    | _ => cases h
  | polygon rs =>
    cases b with
    | polygon ts => exact beq_list_symm (fun _ _ => beq_list_symm Coord.beq_symm) h
    | _ => cases h
  | multiPoint cs =>
    cases b with
    | multiPoint ds => exact beq_list_symm Coord.beq_symm h
    | _ => cases h
  | multiLineString rs =>
    cases b with
    | multiLineString ts => exact beq_list_symm (fun _ _ => beq_list_symm Coord.beq_symm) h
    | _ => cases h
  | multiPolygon ps =>
    cases b with
    | multiPolygon qs =>
      exact beq_list_symm (fun _ _ => beq_list_symm fun _ _ => beq_list_symm Coord.beq_symm) h
    | _ => cases h
  | collection as =>
    cases b with
    | collection bs => exact beqAll_symm (show beqAll as bs = true from h)
    | _ => cases h

theorem beqAll_symm : ∀ {as bs : List Geometry}, beqAll as bs = true → beqAll bs as = true := by
  intro as bs h
  cases as with
  | nil =>
    cases bs with
    | nil => rfl
    | cons b bs => cases h
  | cons a as =>
    cases bs with
    | nil => cases h
    | cons b bs =>
      obtain ⟨ha, has⟩ := Bool.and_eq_true_iff.1 h
      rw [beqAll, beq_symm ha, beqAll_symm has, Bool.and_self]

end

/-- The text of a geometry is read as a geometry equal to it exactly when its ordinates are finite
and no list inside another one is empty. What is read is then the geometry itself; the text of any
other geometry is refused. -/
theorem text_read_back_iff (g : Geometry) :
    ((∃ g', Wkt.read g.text = .ok g' ∧ (g' == g) = true) ↔ (∀ c ∈ g.coords, c.Finite) ∧ g.Full) ∧
    ((∀ c ∈ g.coords, c.Finite) ∧ g.Full → Wkt.read g.text = .ok g) ∧
    (¬ ((∀ c ∈ g.coords, c.Finite) ∧ g.Full) → ∃ e, Wkt.read g.text = .error e) := by
  have hp : (∀ c ∈ g.coords, c.Finite) ∧ g.Full ↔ g.Printable := and_comm.trans g.printable_iff.symm
  rw [hp]
  refine ⟨⟨?_, ?_⟩, Wkt.read_text, Wkt.read_text_error⟩
  · rintro ⟨g', hread, -⟩
    by_contra hg
    obtain ⟨e, herror⟩ := Wkt.read_text_error hg
    rw [hread] at herror
    cases herror
  · intro hg
    have hn : ∀ c ∈ g.coords, c.IsNumber := fun c hc => ((hp.2 hg).1 c hc).isNumber
    exact ⟨g, Wkt.read_text hg, beq_self_of_number hn⟩

end Geometry

/-! ## Expressions -/

theorem Timestamp.sameInstant_self (t : Timestamp) : t.sameInstant t = true :=
  beq_self_eq_true t.utc

/-- The number or geometry, if the node is one, equals itself. -/
def Expression.EqualsItself : Expression → Prop
  | .literal (.double x) => (x == x) = true
  | .literal (.geometry g) => (g == g) = true
  | _ => True

theorem Expression.Finite.equalsItself (e : Expression) (h : e.Finite) : e.EqualsItself := by
  cases e with
  | literal v =>
    cases v with
    | double x => exact Binary64.beq_self h
    | geometry g =>
      exact Geometry.beq_self_of_number fun c hc => (((g.printable_iff).1 h).2 c hc).isNumber
    | _ => trivial
  | _ => trivial

mutual

theorem Value.beq_self_of_every : ∀ {v : Value}, v.Every Expression.EqualsItself →
    Expression.EqualsItself (.literal v) → Value.beq v v = true
  | .long n, _, _ => beq_self_eq_true n
  | .double _, _, h => h
  | .string s, _, _ => beq_self_eq_true s
  | .boolean b, _, _ => beq_self_eq_true b
  | .date d, _, _ => beq_self_eq_true d
  | .timestamp t, _, _ => t.sameInstant_self
  | .interval a b, h, _ => by
    have ha : Expression.beq a a = true := Expression.beq_self_of_every h.1
    have hb : Expression.beq b b = true := Expression.beq_self_of_every h.2
    rw [Value.beq, ha, hb, Bool.and_self]
  | .geometry _, _, h => h
  | .color c, _, _ => beq_self_eq_true c

/-- An expression equals itself when its numbers and geometries do. -/
theorem Expression.beq_self_of_every : ∀ {e : Expression}, e.Every Expression.EqualsItself →
    Expression.beq e e = true
  | .literal _, h => Value.beq_self_of_every h.2 h.1
  | .property path, _ => beq_self_eq_true path
  | .call name args, h => by
    have ha : Expression.beqAll args args = true := Expression.beqAll_self_of_every h.2
    rw [Expression.beq, ha, beq_self_eq_true, Bool.and_self]
  | .arithmetic op l r, h => by
    have hl : Expression.beq l l = true := Expression.beq_self_of_every h.2.1
    have hr : Expression.beq r r = true := Expression.beq_self_of_every h.2.2
    rw [Expression.beq, hl, hr, beq_self_eq_true, Bool.and_self, Bool.and_self]

theorem Expression.beqAll_self_of_every : ∀ {es : List Expression},
    Expression.EveryOne Expression.EqualsItself es → Expression.beqAll es es = true
  | [], _ => rfl
  | e :: es, h => by
    have he : Expression.beq e e = true := Expression.beq_self_of_every h.1
    have hes : Expression.beqAll es es = true := Expression.beqAll_self_of_every h.2
    rw [Expression.beqAll, he, hes, Bool.and_self]

end

theorem Expression.beq_self {e : Expression} (h : e.AllFinite) : Expression.beq e e = true :=
  Expression.beq_self_of_every (h.imp Expression.Finite.equalsItself)

mutual

theorem Value.beq_symm {a b : Value} (h : Value.beq a b = true) : Value.beq b a = true := by
  cases a with
  | long m =>
    cases b with
    | long n => exact BEq.symm (a := m) h
    | _ => cases h
  | double x =>
    cases b with
    | double y => exact Binary64.beq_symm x y h
    | _ => cases h
  | string s =>
    cases b with
    | string t => exact BEq.symm (a := s) h
    | _ => cases h
  | boolean p =>
    cases b with
    | boolean q => exact BEq.symm (a := p) h
    | _ => cases h
  | date d =>
    cases b with
    | date e => exact BEq.symm (a := d) h
    | _ => cases h
  | timestamp s =>
    cases b with
    | timestamp t => exact BEq.symm (a := s.utc) h
    | _ => cases h
  | interval u v =>
    cases b with
    | interval x y =>
      obtain ⟨hu, hv⟩ := Bool.and_eq_true_iff.1 h
      rw [Value.beq, Expression.beq_symm hu, Expression.beq_symm hv, Bool.and_self]
    | _ => cases h
  | geometry g =>
    cases b with
    | geometry k => exact Geometry.beq_symm (a := g) h
    | _ => cases h
  | color c =>
    cases b with
    | color d => exact BEq.symm (a := c) h
    | _ => cases h

theorem Expression.beq_symm {a b : Expression} (h : Expression.beq a b = true) :
    Expression.beq b a = true := by
  cases a with
  | literal v =>
    cases b with
    | literal w => exact Value.beq_symm (a := v) h
    | _ => cases h
  | property p =>
    cases b with
    | property q => exact BEq.symm (a := p) h
    | _ => cases h
  | call f as =>
    cases b with
    | call g bs =>
      obtain ⟨hf, hb⟩ := Bool.and_eq_true_iff.1 h
      rw [Expression.beq, Expression.beqAll_symm hb, BEq.symm hf, Bool.and_self]
    | _ => cases h
  | arithmetic o x y =>
    cases b with
    | arithmetic p u v =>
      obtain ⟨hop, hv⟩ := Bool.and_eq_true_iff.1 h
      obtain ⟨ho, hu⟩ := Bool.and_eq_true_iff.1 hop
      rw [Expression.beq, Expression.beq_symm hu, Expression.beq_symm hv, BEq.symm ho,
        Bool.and_self, Bool.and_self]
    | _ => cases h

theorem Expression.beqAll_symm {as bs : List Expression} (h : Expression.beqAll as bs = true) :
    Expression.beqAll bs as = true := by
  cases as with
  | nil =>
    cases bs with
    | nil => rfl
    | cons b bs => cases h
  | cons a as =>
    cases bs with
    | nil => cases h
    | cons b bs =>
      obtain ⟨hab, has⟩ := Bool.and_eq_true_iff.1 h
      rw [Expression.beqAll, Expression.beq_symm hab, Expression.beqAll_symm has, Bool.and_self]

end

section Transfer

variable {P : Expression → Prop}

mutual

theorem Value.every_of_beq (ht : ∀ a b, Expression.beq a b = true → P b → P a) {a b : Value}
    (h : Value.beq a b = true) (hb : b.Every P) : a.Every P := by
  cases a with
  | interval u v =>
    cases b with
    | interval x y =>
      obtain ⟨hu, hv⟩ := Bool.and_eq_true_iff.1 h
      exact ⟨Expression.every_of_beq ht hu hb.1, Expression.every_of_beq ht hv hb.2⟩
    | _ => cases h
  | _ => trivial

/-- What holds inside an expression holds inside what is equal to it, if it does of single nodes. -/
theorem Expression.every_of_beq (ht : ∀ a b, Expression.beq a b = true → P b → P a)
    {a b : Expression} (h : Expression.beq a b = true) (hb : b.Every P) : a.Every P := by
  have hself := ht a b h hb.self
  cases a with
  | literal v =>
    cases b with
    | literal w => exact ⟨hself, Value.every_of_beq ht (a := v) h hb.2⟩
    | _ => cases h
  | property p => exact hself
  | call f as =>
    cases b with
    | call g bs => exact ⟨hself, Expression.every_of_beqAll ht (Bool.and_eq_true_iff.1 h).2 hb.2⟩
    | _ => cases h
  | arithmetic o x y =>
    cases b with
    | arithmetic p u v =>
      obtain ⟨hop, hv⟩ := Bool.and_eq_true_iff.1 h
      exact ⟨hself, Expression.every_of_beq ht (Bool.and_eq_true_iff.1 hop).2 hb.2.1,
        Expression.every_of_beq ht hv hb.2.2⟩
    | _ => cases h

theorem Expression.every_of_beqAll (ht : ∀ a b, Expression.beq a b = true → P b → P a)
    {as bs : List Expression} (h : Expression.beqAll as bs = true)
    (hb : Expression.EveryOne P bs) : Expression.EveryOne P as := by
  cases as with
  | nil => trivial
  | cons a as =>
    cases bs with
    | nil => cases h
    | cons b bs =>
      exact ⟨Expression.every_of_beq ht (Bool.and_eq_true_iff.1 h).1 hb.1,
        Expression.every_of_beqAll ht (Bool.and_eq_true_iff.1 h).2 hb.2⟩

end

theorem Filter.everyOne_of_inList? (ht : ∀ a b, Expression.beq a b = true → P b → P a)
    {F : Filter → Prop} (hF : ∀ l r, F (.compare .eq l r)) {clauses : List Filter}
    {value : Expression} {choices : List Expression}
    (h : inList? clauses = some (value, choices)) (hv : value.Every P)
    (hc : Expression.EveryOne P choices) : EveryOne F P clauses := by
  obtain ⟨-, -, -, hf⟩ := of_inList? h
  clear h
  induction hf with
  | nil => trivial
  | cons hr _ ih =>
    obtain ⟨l, rfl, hl⟩ := hr
    exact ⟨⟨hF _ _, Expression.every_of_beq ht hl hv, hc.1⟩, ih hc.2⟩

end Transfer

end FeatureFilter
