import FeatureFilter.Proofs.Filter.Nesting

/-!
# Room for a tree

With as many levels as the text of a tree takes, the text is never refused for being nested too
deep, whatever else may be wrong with it (`Filter.spares`). Infinite numbers and numbers that are
none are included here, whose texts are read as other trees.
-/

namespace FeatureFilter

namespace Verdict

/-- With `n` levels of nesting and more the text is not nested too deep. -/
def Spares (verdict : Nat → Verdict) (n : Nat) : Prop := ∀ room, n ≤ room → verdict room ≠ .deep

namespace Spares

variable {v w : Nat → Verdict} {m n : Nat}

theorem const {u : Verdict} (h : u ≠ .deep) : Spares (fun _ => u) n := fun _ _ => h

theorem nested (h : Spares v n) : Spares (nested v) (n + 1) := by
  intro room hroom
  cases room with
  | zero => cases hroom
  | succ room => exact h room (Nat.le_of_succ_le_succ hroom)

/-- Parentheses take a level where they are asked for. -/
theorem bracketed (group : Bool) (h : Spares v n) :
    Spares (bracketed group v) (n + group.toNat) := by
  cases group with
  | false => exact h
  | true => exact h.nested

theorem andThen (hv : Spares v m) (hw : Spares w n) :
    Spares (fun room => (v room).andThen (w room)) (max m n) := by
  intro room hroom
  have hvr := hv room ((Nat.le_max_left m n).trans hroom)
  have hwr := hw room ((Nat.le_max_right m n).trans hroom)
  cases hv : v room with
  | fits =>
    simp only [hv, fits_andThen]
    exact hwr
  | deep => exact absurd hv hvr
  | odd => simp [hv, Verdict.andThen]

end Spares

end Verdict

open Verdict (Spares)

variable {g : Grammar}

theorem Geometry.verdict_ne_deep {shape : Geometry} (h : shape.nesting ≤ max 1 g.dialect.maxDepth) :
    shape.verdict g ≠ .deep := by
  rw [Geometry.verdict, if_neg (by omega)]
  split <;> simp

mutual

theorem Value.spares : ∀ {v : Value}, v.Every (Expression.Shallow g.dialect) →
    Expression.Shallow g.dialect (.literal v) → Spares (v.verdict g) v.nesting
  | .double (.infinity true), _, _ => (Spares.const (n := 0) (by simp)).nested
  | .double (.infinity false), _, _ | .double .nan, _, _ | .double (.finite _), _, _
  | .long _, _, _ | .string _, _, _ | .boolean _, _, _ | .date _, _, _ | .timestamp _, _, _
  | .color _, _, _ => Spares.const (by simp)
  | .interval _ _, h, _ => ((Expression.spares h.1).andThen (Expression.spares h.2)).nested
  | .geometry _, _, h => Spares.const (Geometry.verdict_ne_deep h)

/-- The levels that the text of an expression takes are enough for it. -/
theorem Expression.spares : ∀ {e : Expression}, e.Every (Expression.Shallow g.dialect) →
    Spares (e.verdict g) e.nesting
  | .literal _, h => Value.spares h.2 h.1
  | .property _, _ => Spares.const (by simp)
  | .call name args, h => by
    have ha := (Expression.sparesAll h.2).nested
    rw [Expression.verdict]
    split
    · exact Spares.const (by simp)
    · exact ha
  | .arithmetic _ _ _, h =>
    ((Expression.spares h.2.1).bracketed _).andThen ((Expression.spares h.2.2).bracketed _)

theorem Expression.sparesAll : ∀ {es : List Expression},
    Expression.EveryOne (Expression.Shallow g.dialect) es →
      Spares (Expression.verdictAll g es) (Expression.nestingAll es)
  | [], _ => Spares.const (by simp)
  | _ :: _, h => (Expression.spares h.1).andThen (Expression.sparesAll h.2)

end

namespace Filter

/-- Geometries in the filter are nested no deeper than a dialect allows. -/
abbrev AllShallow (d : Dialect) (f : Filter) : Prop :=
  f.Every (fun _ => True) (Expression.Shallow d)

theorem spares_call {name : String} {left right : Expression}
    (hl : left.Every (Expression.Shallow g.dialect))
    (hr : right.Every (Expression.Shallow g.dialect)) :
    Spares ((Expression.call name [left, right]).verdict g)
      (Expression.nestingAll [left, right] + 1) :=
  Expression.spares (e := .call name [left, right]) ⟨trivial, hl, hr, trivial⟩

theorem spares_inList {clauses : List Filter} {value : Expression} {choices : List Expression}
    (hin : inList? clauses = some (value, choices))
    (h : EveryOne (fun _ => True) (Expression.Shallow g.dialect) clauses) :
    Spares (inVerdict g value choices) (inNesting value choices) := by
  obtain ⟨hv, hc⟩ := every_of_inList? hin h
  exact (Expression.spares hv).andThen (Expression.sparesAll hc).nested

mutual

/-- The levels that the text of a filter takes are enough for it. -/
theorem spares : ∀ {f : Filter}, f.AllShallow g.dialect → Spares (f.verdict g) f.nesting
  | compare _ _ _, h => (Expression.spares h.2.1).andThen (Expression.spares h.2.2)
  | between _ _ _, h => (Expression.spares h.2.1).andThen
    ((Expression.spares h.2.2.1).andThen (Expression.spares h.2.2.2))
  | like _ _ _, h | isNull _, h => Expression.spares h.2
  | spatial _ _ _, h | temporal _ _ _, h => spares_call h.2.1 h.2.2
  | all _, h => sparesAll h.2
  | any clauses, h => by
    cases hin : inList? clauses with
    | some p =>
      simp only [verdict, nesting, hin]
      exact spares_inList hin h.2
    | none =>
      simp only [verdict, nesting, hin]
      exact sparesAll h.2
  | negation _, h => sparesNegation h.2

theorem sparesNegation : ∀ {f : Filter}, f.AllShallow g.dialect →
    Spares (f.negationVerdict g) f.negationNesting
  | compare _ _ _, h => ((Expression.spares h.2.1).andThen (Expression.spares h.2.2)).nested
  | between _ _ _, h => (Expression.spares h.2.1).andThen
    ((Expression.spares h.2.2.1).andThen (Expression.spares h.2.2.2))
  | like _ _ _, h | isNull _, h => Expression.spares h.2
  | spatial _ _ _, h | temporal _ _ _, h => (spares_call h.2.1 h.2.2).nested
  | all _, h => (sparesAll h.2).nested.nested
  | any clauses, h => by
    cases hin : inList? clauses with
    | some p =>
      simp only [negationVerdict, negationNesting, hin]
      exact spares_inList hin h.2
    | none =>
      simp only [negationVerdict, negationNesting, hin]
      exact (sparesAll h.2).nested.nested
  | negation _, h => (sparesNegation h.2).nested

theorem sparesAll : ∀ {fs : List Filter},
    EveryOne (fun _ => True) (Expression.Shallow g.dialect) fs →
      Spares (clausesVerdict g fs) (clausesNesting fs)
  | [], _ => Spares.const (by simp)
  | f :: _, h => ((spares h.1).bracketed f.isChain).andThen (sparesAll h.2)

end

end Filter

end FeatureFilter
