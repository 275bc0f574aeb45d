import FeatureFilter.Phrase

/-!
# Phrases without their places

Where a phrase was read from makes no difference to what it says. `bare` forgets the places.
-/

namespace FeatureFilter

/-- The place of phrases whose places are forgotten. -/
def Span.nowhere : Span := ⟨0, 0, 0, 0⟩

open Span (nowhere)

def PropertyName.bare (p : PropertyName) : PropertyName := { p with span := nowhere }

namespace Operand

mutual

/-- The operand without its places. -/
def bare : Operand → Operand
  | literal _ value => literal nowhere value
  | property _ name => property nowhere name.bare
  | call _ name args => call nowhere name (bareAll args)
  | arithmetic _ op left right => arithmetic nowhere op left.bare right.bare
  | interval _ start stop => interval nowhere start.bare stop.bare
  | openBound _ => openBound nowhere
  | geometry _ g srid => geometry nowhere g srid

def bareAll : List Operand → List Operand
  | [] => []
  | o :: os => o.bare :: bareAll os

end

theorem bareAll_eq (os : List Operand) : bareAll os = os.map bare := by
  induction os with
  | nil => rfl
  | cons o os ih => rw [bareAll, List.map_cons, ih]

@[simp] theorem bare_withSpan (s : Span) (o : Operand) : (o.withSpan s).bare = o.bare := by
  cases o <;> rfl

@[simp] theorem bare_combine (left : Operand) (op : ArithmeticOp) (right : Operand) :
    (left.combine op right).bare = .arithmetic nowhere op left.bare right.bare := rfl

end Operand

namespace Condition

open Operand (bareAll)

mutual

def bare : Condition → Condition
  | any _ clauses => any nowhere (bareClauses clauses)
  | all _ clauses => all nowhere (bareClauses clauses)
  | negation _ clause => negation nowhere clause.bare
  | compare _ op left right => compare nowhere op left.bare right.bare
  | between _ negated value low high => between nowhere negated value.bare low.bare high.bare
  | like _ negated value pattern matchCase => like nowhere negated value.bare pattern matchCase
  | isNull _ negated value => isNull nowhere negated value.bare
  | inList _ negated value choices => inList nowhere negated value.bare (bareAll choices)
  | call _ name args => call nowhere name (bareAll args)

def bareClauses : List Condition → List Condition
  | [] => []
  | c :: cs => c.bare :: bareClauses cs

end

theorem bareClauses_eq (cs : List Condition) : bareClauses cs = cs.map bare := by
  induction cs with
  | nil => rfl
  | cons c cs ih => rw [bareClauses, List.map_cons, ih]

end Condition

end FeatureFilter
