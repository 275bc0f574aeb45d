import FeatureFilter.Phrase.Meaning

/-!
# Interpretation of filters

A maker of nodes interprets a filter: every node of the tree is replaced by what the maker makes of
it, from the leaves up. `Condition.mirrors_make` says that to make the nodes of a condition is to
interpret its tree, so the choice of a maker decides nothing but the shape of the result: not
whether there is one, and not what is wrong with a phrase that has none.
-/

namespace FeatureFilter

variable {ε φ : Type}

/-! ## The interpretation of a tree -/

mutual

def Value.interpret (mk : Maker Id ε φ) : Value → ε
  | .interval start stop => mk.interval (start.interpret mk) (stop.interpret mk)
  | .long n => mk.literal (.long n)
  | .double x => mk.literal (.double x)
  | .string s => mk.literal (.string s)
  | .boolean b => mk.literal (.boolean b)
  | .date d => mk.literal (.date d)
  | .timestamp t => mk.literal (.timestamp t)
  | .geometry g => mk.literal (.geometry g)
  | .color c => mk.literal (.color c)

def Expression.interpret (mk : Maker Id ε φ) : Expression → ε
  | .literal v => v.interpret mk
  | .property path => mk.property path
  | .call name args => mk.call name (Expression.interpretAll mk args)
  | .arithmetic op left right => mk.arithmetic op (left.interpret mk) (right.interpret mk)

def Expression.interpretAll (mk : Maker Id ε φ) : List Expression → List ε
  | [] => []
  | e :: es => e.interpret mk :: Expression.interpretAll mk es

end

namespace Filter

mutual

/-- What the maker makes of a filter. -/
def interpret (mk : Maker Id ε φ) : Filter → φ
  | .compare op left right => mk.compare op (left.interpret mk) (right.interpret mk)
  | .between value low high =>
    mk.between (value.interpret mk) (low.interpret mk) (high.interpret mk)
  | .like value pattern matchCase => mk.like (value.interpret mk) pattern matchCase
  | .isNull value => mk.isNull (value.interpret mk)
  | .spatial op left right => mk.spatial op (left.interpret mk) (right.interpret mk)
  | .temporal op left right => mk.temporal op (left.interpret mk) (right.interpret mk)
  | .all clauses => mk.all (interpretAll mk clauses)
  | .any clauses => mk.any (interpretAll mk clauses)
  | .negation clause => mk.negation (clause.interpret mk)

def interpretAll (mk : Maker Id ε φ) : List Filter → List φ
  | [] => []
  | f :: fs => f.interpret mk :: interpretAll mk fs

end

end Filter

variable {mk : Maker Id ε φ} {v : Vocabulary}

theorem Value.interpret_eq_literal {x : Value} (h : ∀ a b, x ≠ .interval a b) :
    x.interpret mk = mk.literal x := by
  cases x with
  | interval a b => exact absurd rfl (h a b)
  | _ => rfl

theorem Literal.interpret_toValue (l : Literal) : l.toValue.interpret mk = mk.literal l.toValue :=
  Value.interpret_eq_literal fun _ _ => by cases l <;> exact nofun

mutual

theorem Value.interpret_tree : ∀ x : Value, x.interpret .tree = .literal x
  | .interval start stop => by
    rw [Value.interpret, start.interpret_tree, stop.interpret_tree]
    rfl
  | .long _ | .double _ | .string _ | .boolean _ | .date _ | .timestamp _ | .geometry _
  | .color _ => rfl

/-- The maker of trees makes the tree itself. -/
theorem Expression.interpret_tree : ∀ e : Expression, e.interpret .tree = e
  | .literal x => x.interpret_tree
  | .property _ => rfl
  | .call name args => by
    rw [Expression.interpret, Expression.interpretAll_tree args]
    rfl
  | .arithmetic op left right => by
    rw [Expression.interpret, left.interpret_tree, right.interpret_tree]
    rfl

theorem Expression.interpretAll_tree : ∀ es : List Expression, Expression.interpretAll .tree es = es
  | [] => rfl
  | e :: es => by rw [Expression.interpretAll, e.interpret_tree, Expression.interpretAll_tree es]

end

mutual

theorem Filter.interpret_tree : ∀ f : Filter, f.interpret .tree = f
  | .compare _ left right | .spatial _ left right | .temporal _ left right => by
    rw [interpret, left.interpret_tree, right.interpret_tree]
    rfl
  | .between value low high => by
    rw [interpret, value.interpret_tree, low.interpret_tree, high.interpret_tree]
    rfl
  | .like value _ _ | .isNull value => by
    rw [interpret, value.interpret_tree]
    rfl
  | .all clauses | .any clauses => by
    rw [interpret, Filter.interpretAll_tree clauses]
    rfl
  | .negation clause => by
    rw [interpret, clause.interpret_tree]
    rfl

theorem Filter.interpretAll_tree : ∀ fs : List Filter, interpretAll .tree fs = fs
  | [] => rfl
  | f :: fs => by rw [interpretAll, f.interpret_tree, interpretAll_tree fs]

end

/-! ## Work that mirrors other work -/

/-- `y` gives the image of what `x` gives, and fails where `x` does and with the same error. -/
def Mirrors (f : α → β) (x : ExceptT MeaningError Id α) (y : ExceptT MeaningError Id β) : Prop :=
  y = f <$> x

namespace Mirrors

variable {f : α → β} {g : γ → δ} {x : ExceptT MeaningError Id α} {y : ExceptT MeaningError Id β}

theorem bind {k : α → ExceptT MeaningError Id γ} {k' : β → ExceptT MeaningError Id δ}
    (h : Mirrors f x y) (hk : ∀ a, Mirrors g (k a) (k' (f a))) :
    Mirrors g (x >>= k) (y >>= k') := by
  subst h
  rw [Mirrors, bind_map_left, map_bind]
  exact congrArg _ (funext hk)

theorem after {k : α → ExceptT MeaningError Id γ} {k' : α → ExceptT MeaningError Id δ}
    (hk : ∀ a, Mirrors g (k a) (k' a)) : Mirrors g (x >>= k) (x >>= k') :=
  bind (f := id) (id_map x).symm hk

theorem mapError (h : Mirrors f x y) (wrap : MeaningError → σ) :
    y.run.run.mapError wrap = (x.run.run.mapError wrap).map f := by
  have hy : y.run.run = x.run.run.map f := h ▸ congrArg Id.run (ExceptT.run_map f x)
  rw [hy]
  cases x.run.run <;> rfl

end Mirrors

/-! ## Operands -/

namespace Operand

theorem mirrors_asBound {o : Operand}
    (h : Mirrors (Expression.interpret mk) (o.make v .tree) (o.make v mk)) :
    Mirrors (Expression.interpret mk) (o.asBound .tree (o.make v .tree))
      (o.asBound mk (o.make v mk)) := by
  cases o with
  | literal s l =>
    cases l with
    | date d => exact h
    | timestamp t => exact h
    | _ => rfl
  | property s p => exact h
  | call s name args => exact h
  | _ => rfl

mutual

theorem mirrors_make : ∀ o : Operand,
    Mirrors (Expression.interpret mk) (o.make v .tree) (o.make v mk)
  | .literal s l => congrArg (pure (f := ExceptT MeaningError Id)) l.interpret_toValue.symm
  | .property s p => rfl
  | .call s name args => by
    rw [make, make]
    exact .after fun _ => (mirrors_makeAll args).bind fun _ => rfl
  | .arithmetic s op left right => by
    rw [make, make]
    exact (mirrors_make left).bind fun _ => (mirrors_make right).bind fun _ => rfl
  | .interval s start stop => by
    rw [make, make]
    exact (mirrors_asBound (mirrors_make start)).bind fun _ =>
      (mirrors_asBound (mirrors_make stop)).bind fun _ => rfl
  | .openBound s => rfl
  | .geometry s g none => rfl
  | .geometry s g (some n) => rfl

theorem mirrors_makeAll : ∀ os : List Operand,
    Mirrors (Expression.interpretAll mk) (makeAll v .tree os) (makeAll v mk os)
  | [] => rfl
  | o :: os => by
    rw [makeAll, makeAll]
    exact (mirrors_make o).bind fun _ => (mirrors_makeAll os).bind fun _ => rfl

end

end Operand

/-! ## Conditions -/

namespace Condition

theorem mirrors_negated (negated : Bool) (f : Filter) :
    Mirrors (Filter.interpret mk) (makeNegated .tree negated f)
      (makeNegated mk negated (f.interpret mk)) := by
  cases negated <;> rfl

/-- One value stands in all the equalities of a list, in the tree as its copies. -/
theorem mirrors_equalities (e : Expression) (os : List Operand) :
    Mirrors (Filter.interpretAll mk) (makeEqualities v .tree e os)
      (makeEqualities v mk (e.interpret mk) os) := by
  induction os with
  | nil => rfl
  | cons o os ih =>
    rw [makeEqualities, makeEqualities]
    exact (Operand.mirrors_make o).bind fun _ => .bind (f := Filter.interpret mk) rfl fun _ =>
      ih.bind fun _ => rfl

theorem mirrors_relate (r : Relation) (a b : Expression) :
    Mirrors (Filter.interpret mk) (Maker.tree.relate r a b)
      (mk.relate r (a.interpret mk) (b.interpret mk)) := by
  cases r <;> rfl

mutual

theorem mirrors_make : ∀ c : Condition,
    Mirrors (Filter.interpret mk) (c.make v .tree) (c.make v mk)
  | .any s clauses => by
    rw [make, make]
    exact (mirrors_makeAll clauses).bind fun _ => rfl
  | .all s clauses => by
    rw [make, make]
    exact (mirrors_makeAll clauses).bind fun _ => rfl
  | .negation s clause => by
    rw [make, make]
    exact (mirrors_make clause).bind fun _ => rfl
  | .compare s op left right => by
    rw [make, make]
    exact (Operand.mirrors_make left).bind fun _ => (Operand.mirrors_make right).bind fun _ => rfl
  | .between s negated value low high => by
    rw [make, make]
    exact (Operand.mirrors_make value).bind fun _ => (Operand.mirrors_make low).bind fun _ =>
      (Operand.mirrors_make high).bind fun _ =>
        .bind (f := Filter.interpret mk) rfl (mirrors_negated _)
  | .like s negated value pattern matchCase => by
    rw [make, make]
    exact (Operand.mirrors_make value).bind fun _ =>
      .bind (f := Filter.interpret mk) rfl (mirrors_negated _)
  | .isNull s negated value => by
    rw [make, make]
    exact (Operand.mirrors_make value).bind fun _ =>
      .bind (f := Filter.interpret mk) rfl (mirrors_negated _)
  | .inList s negated value choices => by
    rw [make, make]
    exact (Operand.mirrors_make value).bind fun _ => (mirrors_equalities _ choices).bind fun _ =>
      .bind (f := Filter.interpret mk) rfl (mirrors_negated _)
  | .call s name args => by
    rw [make, make]
    refine .after fun r => ?_
    match args with
    | [left, right] =>
      exact (Operand.mirrors_make left).bind fun _ => (Operand.mirrors_make right).bind fun _ =>
        mirrors_relate r _ _
    | [] | [_] | _ :: _ :: _ :: _ => rfl

theorem mirrors_makeAll : ∀ cs : List Condition,
    Mirrors (Filter.interpretAll mk) (makeAll v .tree cs) (makeAll v mk cs)
  | [] => rfl
  | c :: cs => by
    rw [makeAll, makeAll]
    exact (mirrors_make c).bind fun _ => (mirrors_makeAll cs).bind fun _ => rfl

end

end Condition

end FeatureFilter
