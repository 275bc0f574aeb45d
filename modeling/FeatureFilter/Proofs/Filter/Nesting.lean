import FeatureFilter.Proofs.Filter.Equality
import FeatureFilter.Proofs.Filter.Verdict

/-!
# Levels of nesting

How many levels of nesting the text of a tree takes. The text is read when there are as many levels,
the geometries in it are not nested too deep themselves, and no name in it is refused
(`Filter.verdict_eq_fits`).
-/

namespace FeatureFilter

namespace Verdict

/-- The verdict is favourable with `n` levels of nesting and more, as long as `p` holds. -/
def Needs (verdict : Nat → Verdict) (n : Nat) (p : Prop) : Prop :=
  ∀ room, verdict room = .fits ↔ n ≤ room ∧ p

namespace Needs

variable {v w : Nat → Verdict} {m n : Nat} {p q : Prop}

theorem congr (h : Needs v n p) (hpq : p ↔ q) : Needs v n q := fun room => by rw [h room, hpq]

theorem fits : Needs (fun _ => .fits) 0 True := fun room => by simp

theorem odd : Needs (fun _ => .odd) n False := fun room => by simp

theorem nested (h : Needs v n p) : Needs (nested v) (n + 1) p := by
  intro room
  cases room with
  | zero => simp [Verdict.nested]
  | succ room =>
    rw [Verdict.nested, h room, Nat.add_le_add_iff_right]

/-- Parentheses take a level where they are asked for. -/
theorem bracketed (group : Bool) (h : Needs v n p) :
    Needs (bracketed group v) (n + group.toNat) p := by
  cases group with
  | false => exact h
  | true => exact h.nested

theorem andThen (hv : Needs v m p) (hw : Needs w n q) :
    Needs (fun room => (v room).andThen (w room)) (max m n) (p ∧ q) := by
  intro room
  rw [andThen_eq_fits, hv room, hw room, Nat.max_le, and_and_and_comm]

end Needs

end Verdict

/-! ## Geometries -/

theorem map_eq_of_beq {α : Type} [BEq α] {f : α → β} (hf : ∀ a b, (a == b) = true → f a = f b)
    {as bs : List α} (h : (as == bs) = true) : as.map f = bs.map f := by
  have hf₂ := beq_list_iff.1 h
  clear h
  induction hf₂ with
  | nil => rfl
  | cons hab _ ih => rw [List.map_cons, List.map_cons, hf _ _ hab, ih]

namespace Geometry

mutual

/-- Equal geometries are nested equally deep. -/
theorem nesting_of_beq {a b : Geometry} (h : beq a b = true) : a.nesting = b.nesting := by
  cases a with
  | point p =>
    cases b with
    | point q =>
      cases p with
      | none => cases q with
        | none => rfl
        | some d => cases h
      | some c => cases q with
        | none => cases h
        | some d => rfl
    | _ => cases h
  | lineString cs =>
    cases b with
    | lineString ds =>
      rw [nesting, nesting, map_eq_of_beq (fun _ _ _ => rfl) (h : (cs == ds) = true)]
    | _ => cases h
  | polygon rs =>
    cases b with
    | polygon ts => rw [nesting, nesting, map_eq_of_beq (fun _ _ _ => rfl) (h : (rs == ts) = true)]
    | _ => cases h
  | multiPoint cs =>
    cases b with
    | multiPoint ds =>
      rw [nesting, nesting, map_eq_of_beq (fun _ _ _ => rfl) (h : (cs == ds) = true)]
    | _ => cases h
  | multiLineString rs =>
    cases b with
    | multiLineString ts =>
      rw [nesting, nesting, map_eq_of_beq (fun _ _ _ => rfl) (h : (rs == ts) = true)]
    | _ => cases h
  | multiPolygon ps =>
    cases b with
    | multiPolygon qs =>
      have hmap (rs ts : List (List Coord)) (h : (rs == ts) = true) :
          listNesting (rs.map fun _ => 1) = listNesting (ts.map fun _ => 1) := by
        rw [map_eq_of_beq (fun _ _ _ => rfl) h]
      rw [nesting, nesting, map_eq_of_beq hmap (h : (ps == qs) = true)]
    | _ => cases h
  | collection as =>
    cases b with
    | collection bs => rw [nesting, nesting, nestingAll_of_beq (show beqAll as bs = true from h)]
    | _ => cases h

theorem nestingAll_of_beq {as bs : List Geometry} (h : beqAll as bs = true) :
    nestingAll as = nestingAll bs := by
  cases as with
  | nil =>
    cases bs with
    | nil => rfl
    | cons b bs => cases h
  | cons a as =>
    cases bs with
    | nil => cases h
    | cons b bs =>
      obtain ⟨ha, has⟩ := Bool.and_eq_true_iff.1 h
      rw [nestingAll, nestingAll, nesting_of_beq ha, nestingAll_of_beq has]

end

end Geometry

/-! ## Expressions -/

mutual

def Value.nesting : Value → Nat
  | .double (.infinity true) => 1
  | .interval start stop => max start.nesting stop.nesting + 1
  | _ => 0

/-- How many levels of nesting the text of an expression takes. -/
def Expression.nesting : Expression → Nat
  | .literal v => v.nesting
  | .property _ => 0
  | .call _ args => Expression.nestingAll args + 1
  | .arithmetic op left right =>
    max (left.nesting + (needsGroup op false left).toNat)
      (right.nesting + (needsGroup op true right).toNat)

def Expression.nestingAll : List Expression → Nat
  | [] => 0
  | e :: es => max e.nesting (Expression.nestingAll es)

end

def Expression.Allowed (d : Dialect) : Expression → Prop
  | .call name _ => d.rejects name = false
  | _ => True

/-- Geometries are nested no deeper than a dialect allows; a single level always is. -/
def Expression.Shallow (d : Dialect) : Expression → Prop
  | .literal (.geometry shape) => shape.nesting ≤ max 1 d.maxDepth
  | _ => True

/-- A dialect reads the node, as long as there are enough levels for it. -/
def Expression.Readable (d : Dialect) (e : Expression) : Prop := e.Allowed d ∧ e.Shallow d

def Filter.Allowed (d : Dialect) : Filter → Prop
  | .spatial op _ _ => d.rejects op.functionName = false
  | .temporal op _ _ => d.rejects op.functionName = false
  | _ => True

/-- The geometries that can be written are read back as they are. -/
def ReadsShapes (read : String → Except Wkt.Error Geometry) : Prop :=
  ∀ shape : Geometry, shape.Printable → read shape.text = .ok shape

theorem readsShapes_wkt : ReadsShapes Wkt.read := fun _ h => Wkt.read_text h

theorem Expression.readable_of_beq {d : Dialect} (a b : Expression)
    (h : Expression.beq a b = true) (hb : b.Readable d) : a.Readable d := by
  cases a with
  | literal v =>
    cases b with
    | literal w =>
      cases v with
      | geometry g =>
        cases w with
        | geometry k =>
          have hn : g.nesting = k.nesting := Geometry.nesting_of_beq h
          refine ⟨trivial, ?_⟩
          rw [Expression.Shallow, hn]
          exact hb.2
        | _ => cases h
      | _ => exact ⟨trivial, trivial⟩
    | _ => cases h
  | call f as =>
    cases b with
    | call g bs =>
      have hf : f = g := beq_iff_eq.1 (Bool.and_eq_true_iff.1 h).1
      subst hf
      exact hb
    | _ => cases h
  | _ => exact ⟨trivial, trivial⟩

variable {g : Grammar}

open Verdict (Needs)

theorem Geometry.verdict_eq_fits (hw : ReadsShapes g.readGeometry) {shape : Geometry}
    (h : shape.Printable) :
    shape.verdict g = .fits ↔ shape.nesting ≤ max 1 g.dialect.maxDepth := by
  rw [Geometry.verdict, hw shape h]
  split <;> simp <;> omega

mutual

theorem Value.needs (hw : ReadsShapes g.readGeometry) :
    ∀ {v : Value}, (Expression.literal v).AllFinite →
      Needs (v.verdict g) v.nesting ((Expression.literal v).Every (Expression.Readable g.dialect))
  | .double (.infinity _), h => by cases h.1
  | .double .nan, h => by cases h.1
  | .interval start stop, h => by
    refine (((Expression.needs hw h.2.1).andThen (Expression.needs hw h.2.2)).nested).congr ?_
    simp [Expression.Every, Value.Every, Expression.Readable, Expression.Allowed,
      Expression.Shallow]
  | .geometry shape, h => by
    intro room
    rw [Value.verdict, Geometry.verdict_eq_fits hw h.1]
    simp [Value.nesting, Expression.Every, Value.Every, Expression.Readable, Expression.Allowed,
      Expression.Shallow]
  | .double (.finite _), _ | .long _, _ | .string _, _ | .boolean _, _ | .date _, _
  | .timestamp _, _ | .color _, _ => by
    refine Needs.fits.congr ?_
    simp [Expression.Every, Value.Every, Expression.Readable, Expression.Allowed,
      Expression.Shallow]

/-- The text of a finite expression is read when there are as many levels as it takes. -/
theorem Expression.needs (hw : ReadsShapes g.readGeometry) :
    ∀ {e : Expression}, e.AllFinite →
      Needs (e.verdict g) e.nesting (e.Every (Expression.Readable g.dialect))
  | .literal _, h => Value.needs hw h
  | .property _, _ => Needs.fits.congr (iff_of_true trivial ⟨trivial, trivial⟩)
  | .call name args, h => by
    have ha := (Expression.needsAll hw h.2).nested
    rw [Expression.verdict]
    split
    · rename_i hr
      refine Needs.odd.congr ?_
      simp [Expression.Every, Expression.Readable, Expression.Allowed, hr]
    · rename_i hr
      refine ha.congr ?_
      simp [Expression.Every, Expression.Readable, Expression.Allowed, Expression.Shallow, hr]
  | .arithmetic op left right, h => by
    refine (((Expression.needs hw h.2.1).bracketed _).andThen
      ((Expression.needs hw h.2.2).bracketed _)).congr ?_
    simp [Expression.Every, Expression.Readable, Expression.Allowed, Expression.Shallow]

theorem Expression.needsAll (hw : ReadsShapes g.readGeometry) :
    ∀ {es : List Expression}, Expression.EveryOne Expression.Finite es →
      Needs (Expression.verdictAll g es) (Expression.nestingAll es)
        (Expression.EveryOne (Expression.Readable g.dialect) es)
  | [], _ => Needs.fits
  | _ :: _, h => (Expression.needs hw h.1).andThen (Expression.needsAll hw h.2)

end

/-! ## Filters -/

namespace Filter

def inNesting (value : Expression) (choices : List Expression) : Nat :=
  max value.nesting (Expression.nestingAll choices + 1)

mutual

/-- How many levels of nesting the text of a filter takes. -/
def nesting : Filter → Nat
  | compare _ left right => max left.nesting right.nesting
  | between value low high => max value.nesting (max low.nesting high.nesting)
  | like value _ _ | isNull value => value.nesting
  | spatial _ left right | temporal _ left right => Expression.nestingAll [left, right] + 1
  | all clauses => clausesNesting clauses
  | any clauses =>
    match inList? clauses with
    | some (value, choices) => inNesting value choices
    | none => clausesNesting clauses
  | negation clause => negationNesting clause

def negationNesting : Filter → Nat
  | between value low high => max value.nesting (max low.nesting high.nesting)
  | like value _ _ | isNull value => value.nesting
  | all clauses => clausesNesting clauses + 2
  | any clauses =>
    match inList? clauses with
    | some (value, choices) => inNesting value choices
    | none => clausesNesting clauses + 2
  | compare _ left right => max left.nesting right.nesting + 1
  | spatial _ left right | temporal _ left right => Expression.nestingAll [left, right] + 2
  | negation clause => negationNesting clause + 1

def clausesNesting : List Filter → Nat
  | [] => 0
  | f :: fs => max (f.nesting + f.isChain.toNat) (clausesNesting fs)

end

/-- Everything in the filter is read by a dialect, as long as there are enough levels. -/
abbrev AllReadable (d : Dialect) (f : Filter) : Prop :=
  f.Every (Filter.Allowed d) (Expression.Readable d)

theorem needs_call (hw : ReadsShapes g.readGeometry) {name : String} {left right : Expression}
    (hl : left.AllFinite) (hr : right.AllFinite) :
    Needs ((Expression.call name [left, right]).verdict g)
      (Expression.nestingAll [left, right] + 1)
      (g.dialect.rejects name = false ∧ left.Every (Expression.Readable g.dialect) ∧
        right.Every (Expression.Readable g.dialect)) := by
  refine (Expression.needs hw (e := .call name [left, right]) ⟨trivial, hl, hr, trivial⟩).congr ?_
  simp [Expression.Every, Expression.EveryOne, Expression.Readable, Expression.Allowed,
    Expression.Shallow]

theorem needs_inList (hw : ReadsShapes g.readGeometry) {clauses : List Filter}
    {value : Expression} {choices : List Expression}
    (hin : inList? clauses = some (value, choices))
    (h : EveryOne (fun _ => True) Expression.Finite clauses) :
    Needs (inVerdict g value choices) (inNesting value choices)
      (EveryOne (Filter.Allowed g.dialect) (Expression.Readable g.dialect) clauses) := by
  obtain ⟨hv, hc⟩ := every_of_inList? hin h
  refine ((Expression.needs hw hv).andThen (Expression.needsAll hw hc).nested).congr ⟨?_, ?_⟩
  · rintro ⟨hv, hc⟩
    exact everyOne_of_inList? Expression.readable_of_beq (fun _ _ => trivial) hin hv hc
  · exact every_of_inList? hin

mutual

/-- The text of a finite filter is read when there are as many levels as it takes. -/
theorem needs (hw : ReadsShapes g.readGeometry) :
    ∀ {f : Filter}, f.AllFinite → Needs (f.verdict g) f.nesting (f.AllReadable g.dialect)
  | compare op left right, h => by
    refine ((Expression.needs hw h.2.1).andThen (Expression.needs hw h.2.2)).congr ?_
    simp [Every, Filter.Allowed]
  | between value low high, h => by
    refine ((Expression.needs hw h.2.1).andThen
      ((Expression.needs hw h.2.2.1).andThen (Expression.needs hw h.2.2.2))).congr ?_
    simp [Every, Filter.Allowed]
  | like value pattern matchCase, h => by
    refine (Expression.needs hw h.2).congr ?_
    simp [Every, Filter.Allowed]
  | isNull value, h => by
    refine (Expression.needs hw h.2).congr ?_
    simp [Every, Filter.Allowed]
  | spatial op left right, h => needs_call hw h.2.1 h.2.2
  | temporal op left right, h => needs_call hw h.2.1 h.2.2
  | all clauses, h => (needsAll hw h.2).congr (iff_of_eq (true_and _)).symm
  | any clauses, h => by
    refine Needs.congr ?_ (iff_of_eq (true_and _)).symm
    cases hin : inList? clauses with
    | some p =>
      simp only [verdict, nesting, hin]
      exact needs_inList hw hin h.2
    | none =>
      simp only [verdict, nesting, hin]
      exact needsAll hw h.2
  | negation clause, h => (needsNegation hw h.2).congr (iff_of_eq (true_and _)).symm

theorem needsNegation (hw : ReadsShapes g.readGeometry) :
    ∀ {f : Filter}, f.AllFinite →
      Needs (f.negationVerdict g) f.negationNesting (f.AllReadable g.dialect)
  | compare op left right, h => by
    refine ((Expression.needs hw h.2.1).andThen (Expression.needs hw h.2.2)).nested.congr ?_
    simp [Every, Filter.Allowed]
  | between value low high, h => by
    refine ((Expression.needs hw h.2.1).andThen
      ((Expression.needs hw h.2.2.1).andThen (Expression.needs hw h.2.2.2))).congr ?_
    simp [Every, Filter.Allowed]
  | like value pattern matchCase, h => by
    refine (Expression.needs hw h.2).congr ?_
    simp [Every, Filter.Allowed]
  | isNull value, h => by
    refine (Expression.needs hw h.2).congr ?_
    simp [Every, Filter.Allowed]
  | spatial op left right, h => (needs_call hw h.2.1 h.2.2).nested
  | temporal op left right, h => (needs_call hw h.2.1 h.2.2).nested
  | all clauses, h => (needsAll hw h.2).nested.nested.congr (iff_of_eq (true_and _)).symm
  | any clauses, h => by
    refine Needs.congr ?_ (iff_of_eq (true_and _)).symm
    cases hin : inList? clauses with
    | some p =>
      simp only [negationVerdict, negationNesting, hin]
      exact needs_inList hw hin h.2
    | none =>
      simp only [negationVerdict, negationNesting, hin]
      exact (needsAll hw h.2).nested.nested
  | negation clause, h => (needsNegation hw h.2).nested.congr (iff_of_eq (true_and _)).symm

theorem needsAll (hw : ReadsShapes g.readGeometry) :
    ∀ {fs : List Filter}, EveryOne (fun _ => True) Expression.Finite fs →
      Needs (clausesVerdict g fs) (clausesNesting fs)
        (EveryOne (Filter.Allowed g.dialect) (Expression.Readable g.dialect) fs)
  | [], _ => Needs.fits
  | f :: _, h => ((needs hw h.1).bracketed f.isChain).andThen (needsAll hw h.2)

end

end Filter

end FeatureFilter
