import FeatureFilter.Proofs.Filter.Verdict
import FeatureFilter.Proofs.Syntax.Denotation

/-!
# Phrases that mean a tree

A phrase means a tree when the tree that is made from it is what the text of that tree is read as,
its functions being known. Parts of phrases mean parts of trees.
-/

namespace FeatureFilter

variable {v : Vocabulary} {g : Grammar}

namespace Operand

/-- What is made from the operand is what is read from the text of the expression. -/
def Makes (v : Vocabulary) (g : Grammar) (o : Operand) (e : Expression) : Prop :=
  e.AllKnown v → o.make v .tree = pure (e.reread g)

/-- The operand means the expression. It can stand where the expression can, and shows its shape as
far as reading looks at it. -/
structure Means (v : Vocabulary) (g : Grammar) (o : Operand) (e : Expression) : Prop where
  makes : o.Makes v g e
  bound : e.IsBound → e ≠ .openBound →
    ∀ made : ExceptT MeaningError Id Expression, o.asBound .tree made = made
  call : ∀ name args, e = .call name args →
    ∃ span os, o = .call span name os ∧ List.Forall₂ (Makes v g) os args
  arithmetic : ∀ op left right, e = .arithmetic op left right →
    ∃ span a b, o = .arithmetic span op a b

theorem makeAll_eq {os : List Operand} {es : List Expression} (h : List.Forall₂ (Makes v g) os es)
    (hk : Expression.EveryOne (Expression.Known v) es) :
    Operand.makeAll v .tree os = pure (Expression.rereadAll g es) := by
  induction h with
  | nil => rfl
  | cons ho _ ih =>
    rw [Operand.makeAll, ho hk.1, pure_bind, ih hk.2]
    rfl

namespace Means

/-- Literals that are read back as they are. -/
theorem literal (span : Span) {l : Literal} {value : Value} (hl : l.toValue = value)
    (hr : value.reread g = .literal value) : Means v g (.literal span l) (.literal value) where
  makes _ := by
    subst hl
    rw [Expression.reread, hr]
    rfl
  bound hb ho made := by
    cases l with
    | date d => rfl
    | timestamp t => rfl
    | string s =>
      subst hl
      have hs : s = openMarker := hb
      rw [hs] at ho
      exact absurd rfl ho
    | _ =>
      subst hl
      cases hb
  call _ _ he := by cases he
  arithmetic _ _ _ he := by cases he

theorem property {name : PropertyName} {path : String} (span : Span) (hp : name.path = path) :
    Means v g (.property span name) (.property path) where
  makes _ := by
    rw [← hp]
    rfl
  bound _ _ _ := rfl
  call _ _ he := by cases he
  arithmetic _ _ _ he := by cases he

theorem ofCall {name : String} {os : List Operand} {args : List Expression} (span : Span)
    (h : List.Forall₂ (Means v g) os args) : Means v g (.call span name os) (.call name args) where
  makes hk := by
    have hm := makeAll_eq (h.imp fun _ _ h => h.makes) hk.2
    have hc : v.checkValueCall span name os.length = .ok () := by
      rw [h.length_eq]
      exact hk.1 span
    rw [Operand.make, hc, hm]
    rfl
  bound _ _ _ := rfl
  call _ _ he := by
    cases he
    exact ⟨span, os, rfl, h.imp fun _ _ h => h.makes⟩
  arithmetic _ _ _ he := by cases he

theorem ofArithmetic {op : ArithmeticOp} {a b : Operand} {left right : Expression} (span : Span)
    (ha : Means v g a left) (hb : Means v g b right) :
    Means v g (.arithmetic span op a b) (.arithmetic op left right) where
  makes hk := by
    rw [Operand.make, ha.makes hk.2.1, hb.makes hk.2.2]
    rfl
  bound hb _ _ := by cases hb
  call _ _ he := by cases he
  arithmetic _ _ _ he := by
    cases he
    exact ⟨span, a, b, rfl⟩

/-- Where a group was read from makes no difference. -/
theorem withSpan {o : Operand} {op : ArithmeticOp} {left right : Expression} (span : Span)
    (h : Means v g o (.arithmetic op left right)) :
    Means v g (o.withSpan span) (.arithmetic op left right) := by
  obtain ⟨span', a, b, rfl⟩ := h.arithmetic _ _ _ rfl
  refine ⟨fun hk => h.makes hk, fun hb _ _ => ?_, fun _ _ he => ?_, fun _ _ _ he => ?_⟩
  · cases hb
  · cases he
  · cases he
    exact ⟨span, a, b, rfl⟩

/-- Operators between operands, from left to right. -/
theorem chain {o : Operand} {e : Expression} {links : List (ArithmeticOp × Operand)}
    {parts : List (ArithmeticOp × Expression)} (h : Means v g o e)
    (hl : List.Forall₂ (fun y x => y.1 = x.1 ∧ Means v g y.2 x.2) links parts) :
    Means v g (links.foldl (fun left (op, right) => left.combine op right) o)
      (parts.foldl (fun left (op, right) => .arithmetic op left right) e) := by
  induction hl generalizing o e with
  | nil => exact h
  | @cons y x _ _ hx _ ih =>
    refine ih ?_
    show Means v g (o.combine y.1 y.2) (.arithmetic x.1 e x.2)
    rw [hx.1]
    exact ofArithmetic _ h hx.2

end Means

def MeansBound (v : Vocabulary) (g : Grammar) (o : Operand) (e : Expression) : Prop :=
  e.AllKnown v → o.asBound .tree (o.make v .tree) = pure (e.reread g)

theorem Means.meansBound {o : Operand} {e : Expression} (h : Means v g o e) (hb : e.IsBound)
    (ho : e ≠ .openBound) : MeansBound v g o e := by
  intro hk
  rw [h.bound hb ho, h.makes hk]

theorem meansBound_openBound (span : Span) : MeansBound v g (.openBound span) .openBound :=
  fun _ => rfl

theorem Means.interval {a b : Operand} {start stop : Expression} (span : Span)
    (ha : MeansBound v g a start) (hb : MeansBound v g b stop) :
    Means v g (.interval span a b) (.literal (.interval start stop)) where
  makes hk := by
    rw [Operand.make, ha hk.2.1, hb hk.2.2]
    rfl
  bound hb _ _ := by cases hb
  call _ _ he := by cases he
  arithmetic _ _ _ he := by cases he

theorem Means.geometry (span : Span) (shape : Geometry) :
    Means v g (.geometry span (shape.reread g) none) (.literal (.geometry shape)) where
  makes _ := rfl
  bound hb _ _ := by cases hb
  call _ _ he := by cases he
  arithmetic _ _ _ he := by cases he

/-- Numbers that are not finite are read back as properties. -/
theorem Means.nonfinite (span : Span) {name : PropertyName} {x : Binary64} {word : String}
    (hp : name.path = word) (hr : (Value.double x).reread g = .property word) :
    Means v g (.property span name) (.literal (.double x)) where
  makes _ := by
    rw [Expression.reread, hr, ← hp]
    rfl
  bound hb _ _ := by cases hb
  call _ _ he := by cases he
  arithmetic _ _ _ he := by cases he

/-- The opposite of infinity is read back as a product. -/
theorem Means.negativeInfinity (span inner : Span) {o : Operand}
    (h : Means v g o (.property "inf")) :
    Means v g (.arithmetic span .mul (.literal inner (.integer (-1))) o)
      (.literal (.double (.infinity true))) where
  makes _ := by
    rw [Operand.make, h.makes trivial]
    rfl
  bound hb _ _ := by cases hb
  call _ _ he := by cases he
  arithmetic _ _ _ he := by cases he

end Operand

namespace Condition

open Operand (Makes makeAll_eq)

/-- The condition means the filter. -/
def Means (v : Vocabulary) (g : Grammar) (c : Condition) (f : Filter) : Prop :=
  f.AllKnown v → c.make v .tree = pure (f.reread g)

variable {a b x low high : Operand} {left right value l h : Expression}

theorem Means.compare (span : Span) (op : ComparisonOp) (ha : Makes v g a left)
    (hb : Makes v g b right) : Means v g (.compare span op a b) (.compare op left right) := by
  intro hk
  rw [make, ha hk.2.1, hb hk.2.2]
  rfl

theorem allKnown_of_negatedIf {negated : Bool} {f : Filter} (h : (negatedIf negated f).AllKnown v) :
    f.AllKnown v := by
  cases negated with
  | false => exact h
  | true => exact h.2

theorem Means.between (span : Span) (negated : Bool) (hx : Makes v g x value)
    (hl : Makes v g low l) (hh : Makes v g high h) :
    Means v g (.between span negated x low high) (negatedIf negated (.between value l h)) := by
  intro hk
  obtain ⟨-, hkx, hkl, hkh⟩ := allKnown_of_negatedIf hk
  rw [make, hx hkx, hl hkl, hh hkh]
  cases negated <;> rfl

theorem Means.like (span : Span) (negated : Bool) (pattern : String) (matchCase : Bool)
    (hx : Makes v g x value) :
    Means v g (.like span negated x pattern matchCase)
      (negatedIf negated (.like value pattern matchCase)) := by
  intro hk
  rw [make, hx (allKnown_of_negatedIf hk).2]
  cases negated <;> rfl

theorem Means.isNull (span : Span) (negated : Bool) (hx : Makes v g x value) :
    Means v g (.isNull span negated x) (negatedIf negated (.isNull value)) := by
  intro hk
  rw [make, hx (allKnown_of_negatedIf hk).2]
  cases negated <;> rfl

theorem makeEqualities_eq {os : List Operand} {es : List Expression}
    (ho : List.Forall₂ (Makes v g) os es) (hk : Expression.EveryOne (Expression.Known v) es) :
    makeEqualities v .tree (value.reread g) os =
      pure (es.map fun e => .compare .eq (value.reread g) (e.reread g)) := by
  induction ho with
  | nil => rfl
  | cons h _ ih =>
    rw [makeEqualities, h hk.1, pure_bind, ih hk.2]
    rfl

theorem Means.inList (span : Span) (negated : Bool) {os choices} {clauses : List Filter}
    (hin : Filter.inList? clauses = some (value, choices)) (hx : Makes v g x value)
    (ho : List.Forall₂ (Makes v g) os choices) :
    Means v g (.inList span negated x os) (negatedIf negated (.any clauses)) := by
  intro hk
  have hr : (Filter.any clauses).reread g =
      .any (choices.map fun e => .compare .eq (value.reread g) (e.reread g)) := by
    rw [Filter.reread, hin]
  obtain ⟨hv, hc⟩ := Filter.every_of_inList? hin (allKnown_of_negatedIf hk).2
  rw [make, hx hv, pure_bind, makeEqualities_eq ho hc]
  cases negated with
  | false =>
    rw [negatedIf, if_neg Bool.false_ne_true, hr]
    rfl
  | true =>
    rw [negatedIf, if_pos rfl, Filter.reread, hr]
    rfl

theorem make_call (span : Span) {r : Relation} {name : String} (hr : r.Known v name)
    {os : List Operand} (ho : List.Forall₂ (Makes v g) os [left, right])
    (hl : left.AllKnown v) (hrt : right.AllKnown v) :
    (Condition.call span name os).make v .tree =
      Maker.tree.relate r (left.reread g) (right.reread g) := by
  match os, ho with
  | [a, b], .cons ha (.cons hb .nil) =>
    rw [make]
    simp only [List.length_cons, List.length_nil, Nat.zero_add, Nat.reduceAdd, hr span]
    rw [ha hl, hb hrt]
    rfl

theorem Means.spatial (span : Span) {op : SpatialOp} {os : List Operand}
    (ho : List.Forall₂ (Makes v g) os [left, right]) :
    Means v g (.call span op.functionName os) (.spatial op left right) :=
  fun hk => make_call span hk.1 ho hk.2.1 hk.2.2

theorem Means.temporal (span : Span) {op : TemporalOp} {os : List Operand}
    (ho : List.Forall₂ (Makes v g) os [left, right]) :
    Means v g (.call span op.functionName os) (.temporal op left right) :=
  fun hk => make_call span hk.1 ho hk.2.1 hk.2.2

theorem Means.negation (span : Span) {c : Condition} {f : Filter} (hc : Means v g c f) :
    Means v g (.negation span c) (.negation f) := by
  intro hk
  rw [make, hc hk.2]
  rfl

theorem makeAll_eq {cs : List Condition} {fs : List Filter} (h : List.Forall₂ (Means v g) cs fs)
    (hk : Filter.EveryOne (Filter.Known v) (Expression.Known v) fs) :
    makeAll v .tree cs = pure (Filter.rereadAll g fs) := by
  induction h with
  | nil => rfl
  | cons hc _ ih =>
    rw [makeAll, hc hk.1, pure_bind, ih hk.2]
    rfl

theorem Means.all (span : Span) {cs : List Condition} {fs : List Filter}
    (h : List.Forall₂ (Means v g) cs fs) : Means v g (.all span cs) (.all fs) := by
  intro hk
  rw [make, makeAll_eq h hk.2]
  rfl

theorem Means.any (span : Span) {cs : List Condition} {f f' : Filter} {fs : List Filter}
    (hin : Filter.inList? (f :: f' :: fs) = none)
    (h : List.Forall₂ (Means v g) cs (f :: f' :: fs)) :
    Means v g (.any span cs) (.any (f :: f' :: fs)) := by
  intro hk
  rw [make, makeAll_eq h hk.2, Filter.reread, hin]
  rfl

theorem Means.single {c : Condition} {f : Filter} (hin : Filter.inList? [f] = none)
    (h : Means v g c f) : Means v g c (.any [f]) := by
  intro hk
  rw [h hk.2.1, Filter.reread, hin]
  rfl

end Condition

end FeatureFilter
