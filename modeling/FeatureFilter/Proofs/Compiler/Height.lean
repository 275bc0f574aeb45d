import FeatureFilter.Proofs.Compiler.Encoding
import FeatureFilter.Proofs.Syntax.Height

/-!
# The height of compiled trees

A tree is hardly higher than the phrase that it was made from, and the limit on nesting bounds the
height of a phrase but for the operators in its text (`height_le`). It does not bound it alone:
chains of operators are no nesting (`height_unbounded`).
-/

namespace FeatureFilter

/-! ## Heights -/

mutual

def Value.height : Value → Nat
  | .interval start stop => max start.height stop.height + 1
  | _ => 1

/-- How many expressions stand inside each other. -/
def Expression.height : Expression → Nat
  | .literal v => v.height
  | .property _ => 1
  | .call _ args => Expression.heightAll args + 1
  | .arithmetic _ left right => max left.height right.height + 1

def Expression.heightAll : List Expression → Nat
  | [] => 0
  | e :: es => max e.height (Expression.heightAll es)

end

mutual

/-- How many filters and expressions stand inside each other. -/
def Filter.height : Filter → Nat
  | .compare _ left right | .spatial _ left right | .temporal _ left right =>
    max left.height right.height + 1
  | .between value low high => max value.height (max low.height high.height) + 1
  | .like value _ _ | .isNull value => value.height + 1
  | .all clauses | .any clauses => Filter.heightAll clauses + 1
  | .negation clause => clause.height + 1

def Filter.heightAll : List Filter → Nat
  | [] => 0
  | f :: fs => max f.height (Filter.heightAll fs)

end

/-! ## Trees of phrases -/

variable {v : Vocabulary}

theorem Operand.height_of_denotesBound {o : Operand} {e : Expression} (h : o.DenotesBound v e)
    (ho : ∀ e, o.Denotes v e → e.height ≤ o.height) : e.height ≤ o.height := by
  rcases h with ⟨s, rfl, rfl⟩ | ⟨-, h⟩
  · exact Nat.le_refl 1
  · exact ho e h

mutual

/-- An expression is no higher than the operand that denotes it. -/
theorem Operand.height_of_denotes : ∀ {o : Operand} {e : Expression}, o.Denotes v e →
    e.height ≤ o.height
  | .literal _ l, _, h => by
    rw [denotes_literal.1 h]
    cases l <;> exact Nat.le_refl 1
  | .property _ _, _, h => by
    rw [denotes_property.1 h]
    exact Nat.le_refl 1
  | .openBound _, _, h => absurd h not_denotes_openBound
  | .geometry _ _ _, _, h => by
    obtain ⟨-, rfl⟩ := denotes_geometry.1 h
    exact Nat.le_refl 1
  | .call _ _ args, _, h => by
    obtain ⟨-, es, hes, rfl⟩ := denotes_call.1 h
    exact Nat.succ_le_succ (Operand.heightAll_of_denotes hes)
  | .arithmetic _ _ left right, _, h => by
    obtain ⟨l, r, hl, hr, rfl⟩ := denotes_arithmetic.1 h
    have := Operand.height_of_denotes hl
    have := Operand.height_of_denotes hr
    rw [Expression.height, height]
    omega
  | .interval _ start stop, _, h => by
    obtain ⟨a, b, ha, hb, rfl⟩ := denotes_interval.1 h
    have := Operand.height_of_denotesBound ha fun e he => Operand.height_of_denotes (o := start) he
    have := Operand.height_of_denotesBound hb fun e he => Operand.height_of_denotes (o := stop) he
    rw [Expression.height, Value.height, height]
    omega

theorem Operand.heightAll_of_denotes : ∀ {os : List Operand} {es : List Expression},
    List.Forall₂ (Operand.Denotes v) os es → Expression.heightAll es ≤ Operand.heightAll os
  | [], _, .nil => Nat.le_refl 0
  | _ :: _, _, .cons ho hos => by
    have := Operand.height_of_denotes ho
    have := Operand.heightAll_of_denotes hos
    rw [Expression.heightAll, heightAll]
    omega

end

/-- The equalities of a list are one above the value and the choices. -/
theorem Filter.heightAll_map_compare (x : Expression) (es : List Expression) :
    Filter.heightAll (es.map (.compare .eq x)) ≤ max x.height (Expression.heightAll es) + 1 := by
  induction es with
  | nil => exact Nat.zero_le _
  | cons e es ih =>
    rw [List.map_cons, Filter.heightAll, Filter.height, Expression.heightAll]
    omega

namespace Condition

theorem height_negatedIf (negated : Bool) (f : Filter) :
    (negatedIf negated f).height ≤ f.height + 1 := by
  cases negated with
  | false => exact Nat.le_succ _
  | true => exact Nat.le_refl _

mutual

/-- A filter is at most two higher than the condition that denotes it: a list behind `NOT` becomes
the negation of a chain of equalities. -/
theorem height_of_denotes : ∀ {c : Condition} {f : Filter}, c.Denotes v f → f.height ≤ c.height + 2
  | .any _ clauses, _, h => by
    obtain ⟨fs, hfs, rfl⟩ := denotes_any.1 h
    exact Nat.succ_le_succ (heightAll_of_denotes hfs)
  | .all _ clauses, _, h => by
    obtain ⟨fs, hfs, rfl⟩ := denotes_all.1 h
    exact Nat.succ_le_succ (heightAll_of_denotes hfs)
  | .negation _ clause, _, h => by
    obtain ⟨a, ha, rfl⟩ := denotes_negation.1 h
    exact Nat.succ_le_succ (height_of_denotes ha)
  | .compare _ _ left right, _, h => by
    obtain ⟨l, hl, r, hr, rfl⟩ := denotes_compare.1 h
    have := Operand.height_of_denotes hl
    have := Operand.height_of_denotes hr
    rw [Filter.height, height]
    omega
  | .between _ negated value low high, _, h => by
    obtain ⟨x, hx, l, hl, h, hh, rfl⟩ := denotes_between.1 h
    have := Operand.height_of_denotes hx
    have := Operand.height_of_denotes hl
    have := Operand.height_of_denotes hh
    refine (height_negatedIf _ _).trans ?_
    rw [Filter.height, height]
    omega
  | .like _ negated value _ _, _, h => by
    obtain ⟨x, hx, rfl⟩ := denotes_like.1 h
    have := Operand.height_of_denotes hx
    refine (height_negatedIf _ _).trans ?_
    rw [Filter.height, height]
    omega
  | .isNull _ negated value, _, h => by
    obtain ⟨x, hx, rfl⟩ := denotes_isNull.1 h
    have := Operand.height_of_denotes hx
    refine (height_negatedIf _ _).trans ?_
    rw [Filter.height, height]
    omega
  | .inList _ negated value choices, _, h => by
    obtain ⟨x, hx, es, hes, rfl⟩ := denotes_inList.1 h
    have := Operand.height_of_denotes hx
    have := Operand.heightAll_of_denotes hes
    have := Filter.heightAll_map_compare x es
    refine (height_negatedIf _ _).trans ?_
    rw [Filter.height, height]
    omega
  | .call _ name args, _, h => by
    obtain ⟨left, right, r, rfl, -, a, ha, b, hb, rfl⟩ := denotes_call.1 h
    have := Operand.height_of_denotes ha
    have := Operand.height_of_denotes hb
    have hf : (r.filter a b).height = max a.height b.height + 1 := by cases r <;> rfl
    rw [hf, height, Operand.heightAll, Operand.heightAll]
    omega

theorem heightAll_of_denotes : ∀ {cs : List Condition} {fs : List Filter},
    List.Forall₂ (Denotes v) cs fs → Filter.heightAll fs ≤ heightAll cs + 2
  | [], _, .nil => Nat.zero_le _
  | _ :: _, _, .cons hc hcs => by
    have := height_of_denotes hc
    have := heightAll_of_denotes hcs
    rw [Filter.heightAll, heightAll]
    omega

end

end Condition

namespace Compiler

def operatorCount (text : String) : Nat := operators ((tokenize text).toOption.getD [])

variable {c : Compiler} {text : String}

theorem operators_le_operatorCount {ts : List Token} {p : Position}
    (h : tokenize text = .ok (ts ++ [.finishAt p])) : operators ts ≤ operatorCount text := by
  rw [operatorCount, h]
  exact operators_le_left ts _

theorem height_of_condition {o : Condition} (h : c.condition text = .ok o) :
    o.height ≤ 2 * c.dialect.maxDepth + 4 + operatorCount text := by
  obtain ⟨tokens, htokens, hread⟩ := phrase_eq_ok.1 h
  obtain ⟨ts, p, rfl, hts⟩ := tokenize_finish htokens
  have hb := (Grammar.condition_iff hts (Token.kind_finishAt p)).1 ⟨o, hread, rfl⟩
  have hrise : o.bare.height ≤ operators ts + (2 * c.dialect.maxDepth + 4) :=
    Grammar.rises_isCondition _ _ hb
  have hcount := operators_le_operatorCount htokens
  rw [o.height_bare] at hrise
  omega

theorem height_of_operand {o : Operand} (h : c.operand text = .ok o) :
    o.height ≤ c.dialect.maxDepth + 1 + operatorCount text := by
  obtain ⟨tokens, htokens, hread⟩ := phrase_eq_ok.1 h
  obtain ⟨ts, p, rfl, hts⟩ := tokenize_finish htokens
  have hb := (Grammar.operand_iff hts (Token.kind_finishAt p)).1 ⟨o, hread, rfl⟩
  have hrise : o.bare.height ≤ operators ts + (c.dialect.maxDepth + 1) :=
    Grammar.rises_isOperand _ _ hb
  have hcount := operators_le_operatorCount htokens
  rw [o.height_bare] at hrise
  omega

/-- Geometries in a compiled tree are nested one level deeper than is allowed at most. -/
theorem shallow_of_compiled (hc : c.readGeometry = Wkt.read) :
    (∀ f, c.filter text = .ok f →
      f.AllShallow (c.withLevels (max 1 c.dialect.maxDepth + 1)).dialect) ∧
    ∀ e, c.expression text = .ok e →
      e.Every (Expression.Shallow (c.withLevels (max 1 c.dialect.maxDepth + 1)).dialect) :=
  ⟨fun _ h => allShallow_of_filter hc h (Nat.le_refl _), fun _ h =>
    (settled_of_expression h).written.imp fun _ h => h.shallow hc (Nat.le_refl _)⟩

/-- The limit on nesting bounds the height of phrases and trees, but for the operators of the text,
and it bounds how deep the geometries in them are nested. -/
theorem height_le (c : Compiler) (text : String) :
    (∀ o, c.condition text = .ok o →
      o.height ≤ 2 * c.dialect.maxDepth + 4 + operatorCount text) ∧
    (∀ o, c.operand text = .ok o → o.height ≤ c.dialect.maxDepth + 1 + operatorCount text) ∧
    (∀ f, c.filter text = .ok f → f.height ≤ 2 * c.dialect.maxDepth + 6 + operatorCount text) ∧
    (∀ e, c.expression text = .ok e → e.height ≤ c.dialect.maxDepth + 1 + operatorCount text) ∧
    (c.readGeometry = Wkt.read →
      (∀ f, c.filter text = .ok f →
        f.AllShallow (c.withLevels (max 1 c.dialect.maxDepth + 1)).dialect) ∧
      ∀ e, c.expression text = .ok e →
        e.Every (Expression.Shallow (c.withLevels (max 1 c.dialect.maxDepth + 1)).dialect)) := by
  refine ⟨fun o => height_of_condition, fun o => height_of_operand, fun f hf => ?_, fun e he => ?_,
    shallow_of_compiled⟩
  · obtain ⟨o, ho, hd⟩ := filter_eq_ok.1 hf
    have := height_of_condition ho
    have := Condition.height_of_denotes hd
    omega
  · obtain ⟨o, ho, hd⟩ := expression_eq_ok.1 he
    exact (Operand.height_of_denotes hd).trans (height_of_operand ho)

/-- A sum of two, with three levels of phrases and trees. -/
theorem height_le_sum : ∃ o f, standard.condition "a = 1 + 1" = .ok o ∧
    standard.filter "a = 1 + 1" = .ok f ∧ o.height ≤ 204 + 1 ∧ f.height ≤ 206 + 1 := by
  obtain ⟨o, ho⟩ := exists_ok (x := standard.condition "a = 1 + 1") (by decide +kernel)
  obtain ⟨f, hf⟩ := exists_ok (x := standard.filter "a = 1 + 1") (by decide +kernel)
  have hcount : operatorCount "a = 1 + 1" = 1 := by decide +kernel
  obtain ⟨hcondition, -, hfilter, -⟩ := height_le standard "a = 1 + 1"
  rw [hcount] at hcondition hfilter
  exact ⟨o, f, ho, hf, hcondition o ho, hfilter f hf⟩

/-! ## Chains of operators -/

def sumOfOnes : Nat → Expression
  | 0 => .literal (.long 1)
  | n + 1 => .arithmetic .add (sumOfOnes n) (.literal (.long 1))

theorem every_sumOfOnes {P : Expression → Prop} (hone : P (.literal (.long 1)))
    (hadd : ∀ left right, P (.arithmetic .add left right)) (n : Nat) : (sumOfOnes n).Every P := by
  induction n with
  | zero => exact ⟨hone, trivial⟩
  | succ n ih => exact ⟨hadd _ _, ih, hone, trivial⟩

theorem height_sumOfOnes (n : Nat) : (sumOfOnes n).height = n + 1 := by
  induction n with
  | zero => rfl
  | succ n ih =>
    have hone : (Expression.literal (.long 1)).height = 1 := rfl
    rw [sumOfOnes, Expression.height, ih, hone]
    omega

theorem nesting_sumOfOnes (n : Nat) : (sumOfOnes n).nesting = 0 := by
  induction n with
  | zero => rfl
  | succ n ih =>
    have hgroup : needsGroup .add false (sumOfOnes n) = false := by cases n <;> rfl
    rw [sumOfOnes, Expression.nesting, ih, hgroup]
    rfl

def manyOnes (n : Nat) : Filter := .compare .eq (.property "a") (sumOfOnes n)

theorem filter_manyOnes (n : Nat) :
    (standard.withLevels 0).filter (manyOnes n).text = .ok (manyOnes n) := by
  have hlegible : (manyOnes n).Legible (standard.withLevels 0).dialect :=
    ⟨trivial, trivial, every_sumOfOnes (show -0x8000000000000000 < (1 : Int64).toInt by decide)
      (fun _ _ => trivial) n⟩
  have hfinite : (manyOnes n).AllFinite :=
    ⟨trivial, trivial, every_sumOfOnes trivial (fun _ _ => trivial) n⟩
  have hknown : (manyOnes n).AllKnown standard.vocabulary :=
    ⟨trivial, trivial, every_sumOfOnes trivial (fun _ _ => trivial) n⟩
  have hreadable : (manyOnes n).AllReadable (standard.withLevels 0).dialect :=
    ⟨trivial, ⟨trivial, trivial⟩,
      every_sumOfOnes ⟨trivial, trivial⟩ (fun _ _ => ⟨trivial, trivial⟩) n⟩
  have hsided : (manyOnes n).Every Filter.OneSided fun _ => True :=
    ⟨trivial, trivial, every_sumOfOnes trivial (fun _ _ => trivial) n⟩
  have hlevels : (manyOnes n).nesting ≤ 0 := by
    rw [manyOnes, Filter.nesting, nesting_sumOfOnes]
    exact Nat.le_refl 0
  have hwell : (standard.withLevels 0).WellFormed (manyOnes n) :=
    ⟨hlegible, hfinite, hknown, hreadable, hlevels⟩
  have hread := filter_of_fits hlegible hknown (hwell.fits readsShapes_wkt)
  rwa [Filter.reread_eq readsShapes_wkt hlegible hfinite hsided] at hread

/-- No limit on nesting bounds the height of a phrase or of a tree. -/
theorem height_unbounded :
    (¬ ∃ bound : Nat → Nat, ∀ (c : Compiler) text f, c.filter text = .ok f →
      f.height ≤ bound c.dialect.maxDepth) ∧
    ¬ ∃ bound : Nat → Nat, ∀ (c : Compiler) text o, c.condition text = .ok o →
      o.height ≤ bound c.dialect.maxDepth := by
  have hheight (n : Nat) : (manyOnes n).height = n + 2 := by
    rw [manyOnes, Filter.height, height_sumOfOnes, Expression.height]
    omega
  constructor
  · rintro ⟨bound, h⟩
    have hhigh : (manyOnes (bound 0)).height ≤ bound 0 := h _ _ _ (filter_manyOnes (bound 0))
    rw [hheight] at hhigh
    omega
  · rintro ⟨bound, h⟩
    obtain ⟨o, ho, hd⟩ := filter_eq_ok.1 (filter_manyOnes (bound 0 + 1))
    have hlow := Condition.height_of_denotes hd
    have hhigh : o.height ≤ bound 0 := h _ _ _ ho
    rw [hheight] at hlow
    omega

end Compiler

end FeatureFilter
