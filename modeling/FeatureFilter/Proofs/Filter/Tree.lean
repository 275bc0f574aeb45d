import FeatureFilter.Dialect
import FeatureFilter.Filter.Text
import FeatureFilter.Phrase.Meaning
import FeatureFilter.Proofs.Calendar
import FeatureFilter.Proofs.Geometry.RoundTrip
import FeatureFilter.Proofs.Token.Piece
import Mathlib.Data.List.Forall2

/-!
# Properties of whole trees

`Every` lifts a property of single nodes to all nodes of a tree. `Plain` says of a node that its
text stands for it in a dialect, `Known` that its function is known, and `Finite` that its numbers
are.
-/

namespace FeatureFilter

variable {P P' Q : Expression → Prop} {F F' G : Filter → Prop}

mutual

def Value.Every (P : Expression → Prop) : Value → Prop
  | .interval start stop => start.Every P ∧ stop.Every P
  | _ => True

/-- The property holds of an expression and of all expressions inside it. -/
def Expression.Every (P : Expression → Prop) : Expression → Prop
  | .literal v => P (.literal v) ∧ v.Every P
  | .property path => P (.property path)
  | .call name args => P (.call name args) ∧ Expression.EveryOne P args
  | .arithmetic op left right => P (.arithmetic op left right) ∧ left.Every P ∧ right.Every P

/-- The property holds of all expressions inside several ones. -/
def Expression.EveryOne (P : Expression → Prop) : List Expression → Prop
  | [] => True
  | e :: es => e.Every P ∧ Expression.EveryOne P es

end

theorem Expression.everyOne_iff (es : List Expression) :
    Expression.EveryOne P es ↔ ∀ e ∈ es, e.Every P := by
  induction es with
  | nil => simp [EveryOne]
  | cons e es ih => simp [EveryOne, ih]

theorem Expression.Every.self {e : Expression} (h : e.Every P) : P e := by
  cases e with
  | property path => exact h
  | literal v => exact h.1
  | call name args => exact h.1
  | arithmetic op left right => exact h.1

mutual

/-- What follows at every node from two properties. -/
theorem Value.Every.imp₂ (h : ∀ e, P e → P' e → Q e) :
    ∀ {v : Value}, v.Every P → v.Every P' → v.Every Q
  | .interval _ _, hv, hv' =>
    ⟨Expression.Every.imp₂ h hv.1 hv'.1, Expression.Every.imp₂ h hv.2 hv'.2⟩
  | .long _, _, _ | .double _, _, _ | .string _, _, _ | .boolean _, _, _ | .date _, _, _
  | .timestamp _, _, _ | .geometry _, _, _ | .color _, _, _ => trivial

theorem Expression.Every.imp₂ (h : ∀ e, P e → P' e → Q e) :
    ∀ {e : Expression}, e.Every P → e.Every P' → e.Every Q
  | .literal _, he, he' => ⟨h _ he.1 he'.1, Value.Every.imp₂ h he.2 he'.2⟩
  | .property _, he, he' => h _ he he'
  | .call _ _, he, he' => ⟨h _ he.1 he'.1, Expression.everyOne_imp₂ h he.2 he'.2⟩
  | .arithmetic _ _ _, he, he' =>
    ⟨h _ he.1 he'.1, Expression.Every.imp₂ h he.2.1 he'.2.1, Expression.Every.imp₂ h he.2.2 he'.2.2⟩

theorem Expression.everyOne_imp₂ (h : ∀ e, P e → P' e → Q e) :
    ∀ {es : List Expression}, Expression.EveryOne P es → Expression.EveryOne P' es →
      Expression.EveryOne Q es
  | [], _, _ => trivial
  | _ :: _, hes, hes' =>
    ⟨Expression.Every.imp₂ h hes.1 hes'.1, Expression.everyOne_imp₂ h hes.2 hes'.2⟩

end

theorem Expression.Every.imp (h : ∀ e, P e → Q e) {e : Expression} (he : e.Every P) : e.Every Q :=
  he.imp₂ (fun e hp _ => h e hp) he

namespace Filter

mutual

/-- `F` holds of a filter and of all filters inside it, `P` of all expressions inside it. -/
def Every (F : Filter → Prop) (P : Expression → Prop) : Filter → Prop
  | compare op left right => F (compare op left right) ∧ left.Every P ∧ right.Every P
  | between value low high =>
    F (between value low high) ∧ value.Every P ∧ low.Every P ∧ high.Every P
  | like value pattern matchCase => F (like value pattern matchCase) ∧ value.Every P
  | isNull value => F (isNull value) ∧ value.Every P
  | spatial op left right => F (spatial op left right) ∧ left.Every P ∧ right.Every P
  | temporal op left right => F (temporal op left right) ∧ left.Every P ∧ right.Every P
  | all clauses => F (all clauses) ∧ EveryOne F P clauses
  | any clauses => F (any clauses) ∧ EveryOne F P clauses
  | negation clause => F (negation clause) ∧ Every F P clause

def EveryOne (F : Filter → Prop) (P : Expression → Prop) : List Filter → Prop
  | [] => True
  | f :: fs => Every F P f ∧ EveryOne F P fs

end

theorem everyOne_iff (fs : List Filter) : EveryOne F P fs ↔ ∀ f ∈ fs, f.Every F P := by
  induction fs with
  | nil => simp [EveryOne]
  | cons f fs ih => simp [EveryOne, ih]

mutual

/-- What follows at every node from two pairs of properties. -/
theorem Every.imp₂ (hF : ∀ f, F f → F' f → G f) (h : ∀ e, P e → P' e → Q e) :
    ∀ {f : Filter}, f.Every F P → f.Every F' P' → f.Every G Q
  | compare _ _ _, hf, hf' | spatial _ _ _, hf, hf' | temporal _ _ _, hf, hf' =>
    ⟨hF _ hf.1 hf'.1, hf.2.1.imp₂ h hf'.2.1, hf.2.2.imp₂ h hf'.2.2⟩
  | between _ _ _, hf, hf' =>
    ⟨hF _ hf.1 hf'.1, hf.2.1.imp₂ h hf'.2.1, hf.2.2.1.imp₂ h hf'.2.2.1, hf.2.2.2.imp₂ h hf'.2.2.2⟩
  | like _ _ _, hf, hf' | isNull _, hf, hf' => ⟨hF _ hf.1 hf'.1, hf.2.imp₂ h hf'.2⟩
  | all _, hf, hf' | any _, hf, hf' => ⟨hF _ hf.1 hf'.1, everyOne_imp₂ hF h hf.2 hf'.2⟩
  | negation _, hf, hf' => ⟨hF _ hf.1 hf'.1, Every.imp₂ hF h hf.2 hf'.2⟩

theorem everyOne_imp₂ (hF : ∀ f, F f → F' f → G f) (h : ∀ e, P e → P' e → Q e) :
    ∀ {fs : List Filter}, EveryOne F P fs → EveryOne F' P' fs → EveryOne G Q fs
  | [], _, _ => trivial
  | _ :: _, hfs, hfs' => ⟨Every.imp₂ hF h hfs.1 hfs'.1, everyOne_imp₂ hF h hfs.2 hfs'.2⟩

end

theorem Every.imp (hF : ∀ f, F f → G f) (h : ∀ e, P e → Q e) {f : Filter} (hf : f.Every F P) :
    f.Every G Q :=
  hf.imp₂ (fun f hf _ => hF f hf) (fun e he _ => h e he) hf

end Filter

/-! ## Lists of choices -/

namespace Filter

/-- An equality that gives a choice, its left side being equal to the value of the list. -/
def Chooses (value : Expression) (f : Filter) (choice : Expression) : Prop :=
  ∃ left, f = .compare .eq left choice ∧ (left == value) = true

theorem equality?_eq_some {f : Filter} {p : Expression × Expression} (h : f.equality? = some p) :
    f = .compare .eq p.1 p.2 := by
  unfold equality? at h
  split at h
  · cases h
    rfl
  · cases h

theorem forall₂_of_choices? {value : Expression} {fs : List Filter} {choices : List Expression}
    (h : choices? value fs = some choices) : List.Forall₂ (Chooses value) fs choices := by
  induction fs generalizing choices with
  | nil =>
    cases h
    exact .nil
  | cons f fs ih =>
    rw [choices?] at h
    split at h
    · rename_i l r he
      split at h
      · rename_i hl
        obtain ⟨rs, hrs, rfl⟩ := Option.map_eq_some_iff.1 h
        exact .cons ⟨l, equality?_eq_some he, hl⟩ (ih hrs)
      · cases h
    · cases h

/-- A chain that is an `IN` list: the value is the left side of the first clause. -/
theorem of_inList? {clauses : List Filter} {value : Expression} {choices : List Expression}
    (h : inList? clauses = some (value, choices)) :
    ∃ right rest, clauses = .compare .eq value right :: rest ∧
      List.Forall₂ (Chooses value) clauses choices := by
  unfold inList? at h
  split at h
  · cases h
  · rename_i f fs
    obtain ⟨⟨l, r⟩, he, hc⟩ := Option.bind_eq_some_iff.1 h
    obtain ⟨rs, hrs, heq⟩ := Option.map_eq_some_iff.1 hc
    cases heq
    exact ⟨r, fs, by rw [equality?_eq_some he], forall₂_of_choices? hrs⟩

/-- What holds of all clauses of an `IN` list holds of its value and its choices. -/
theorem every_of_inList? {clauses : List Filter} {value : Expression} {choices : List Expression}
    (h : inList? clauses = some (value, choices)) (hc : EveryOne F P clauses) :
    value.Every P ∧ Expression.EveryOne P choices := by
  obtain ⟨right, rest, he, hf⟩ := of_inList? h
  refine ⟨?_, ?_⟩
  · rw [he] at hc
    exact hc.1.2.1
  · clear h he
    induction hf with
    | nil => trivial
    | cons hr _ ih =>
      obtain ⟨l, rfl, -⟩ := hr
      exact ⟨hc.1.2.2, ih hc.2⟩

theorem choices?_map {value : Expression} (h : (value == value) = true)
    (choices : List Expression) :
    choices? value (choices.map fun choice => compare .eq value choice) = some choices := by
  induction choices with
  | nil => rfl
  | cons choice choices ih =>
    rw [List.map_cons, choices?, equality?]
    simp only [h, if_true, ih, Option.map_some]

/-- Equalities with one left side, when that equals itself, are an `IN` list. -/
theorem inList?_map {value : Expression} (h : (value == value) = true) {choices : List Expression}
    (hne : choices ≠ []) :
    inList? (choices.map fun choice => compare .eq value choice) = some (value, choices) := by
  obtain ⟨choice, choices, rfl⟩ := List.exists_cons_of_ne_nil hne
  have hc := choices?_map h (choice :: choices)
  rw [List.map_cons] at hc ⊢
  simp only [inList?, equality?, Option.bind_some, hc, Option.map_some]

end Filter

/-! ## Nodes whose text stands for them -/

/-- The words in front of a parenthesis that start a literal. -/
def literalWords : List String := ["ENVELOPE", "DATE", "TIMESTAMP", "INTERVAL"]

/-- What a function can be called by: a single word that starts neither a geometry nor another
literal. -/
structure Callable (name : String) : Prop where
  identifier : isIdentifier name.toList = true
  noGeometry : isGeometryWord name = false
  noLiteral : ∀ w ∈ literalWords, sameWord name w = false

def Expression.IsBound : Expression → Prop
  | .literal (.date _) | .literal (.timestamp _) | .property _ | .call _ _ => True
  | .literal (.string s) => s = openMarker
  | _ => False

/-- Literals that a dialect reads back from their text, numbers that are not finite aside. -/
def Value.Plain (d : Dialect) : Value → Prop
  | .long n => -0x8000000000000000 < n.toInt
  | .string s => d.colorLiterals = true → Color.read? s.toList = none
  | .date t => t.FourDigitYear
  | .timestamp t => t.Legible
  | .interval start stop => start.IsBound ∧ stop.IsBound
  | .color c => d.colorLiterals = true ∧ c.rgb < 0x1000000
  | .double _ | .boolean _ | .geometry _ => True

def Expression.Plain (d : Dialect) : Expression → Prop
  | .literal v => v.Plain d
  | .call name _ => Callable name
  | .property _ | .arithmetic _ _ _ => True

/-- Chains have at least two clauses, unless they are an `IN` list with a single choice, and a
pattern without regard to case needs its extension. -/
def Filter.Plain (d : Dialect) : Filter → Prop
  | .like _ _ matchCase => matchCase = true ∨ d.allows .ilike = true
  | .all clauses => 2 ≤ clauses.length
  | .any clauses => 2 ≤ clauses.length ∨ ∃ left right, clauses = [.compare .eq left right]
  | _ => True

def Expression.Known (v : Vocabulary) : Expression → Prop
  | .call name args => ∀ span, v.checkValueCall span name args.length = .ok ()
  | _ => True

def Relation.Known (v : Vocabulary) (r : Relation) (name : String) : Prop :=
  ∀ span, v.relation span name 2 = .ok r

def Filter.Known (v : Vocabulary) : Filter → Prop
  | .spatial op _ _ => Relation.Known v (.spatial op) op.functionName
  | .temporal op _ _ => Relation.Known v (.temporal op) op.functionName
  | _ => True

/-- Numbers and ordinates are finite, and geometries can be written. -/
def Expression.Finite : Expression → Prop
  | .literal (.double x) => x.isFinite = true
  | .literal (.geometry g) => g.Printable
  | _ => True

/-- The text of the whole tree stands for it, but for numbers that are not finite. -/
abbrev Expression.Legible (d : Dialect) (e : Expression) : Prop := e.Every (Expression.Plain d)

abbrev Filter.Legible (d : Dialect) (f : Filter) : Prop :=
  f.Every (Filter.Plain d) (Expression.Plain d)

abbrev Expression.AllKnown (v : Vocabulary) (e : Expression) : Prop := e.Every (Expression.Known v)

abbrev Filter.AllKnown (v : Vocabulary) (f : Filter) : Prop :=
  f.Every (Filter.Known v) (Expression.Known v)

abbrev Expression.AllFinite (e : Expression) : Prop := e.Every Expression.Finite

abbrev Filter.AllFinite (f : Filter) : Prop := f.Every (fun _ => True) Expression.Finite

end FeatureFilter
