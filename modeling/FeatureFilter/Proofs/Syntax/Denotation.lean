import FeatureFilter.Phrase.Meaning
import FeatureFilter.Proofs.Syntax.Bare
import Mathlib.Data.List.Forall2

/-!
# What phrases denote

A phrase denotes the tree that is made from it, if there is one. Each kind of phrase has a lemma
that says when it denotes a tree, and which. Places make no difference, and a larger vocabulary
gives no other tree.
-/

namespace FeatureFilter

open Span (nowhere)


abbrev Gives (x : ExceptT MeaningError Id α) (a : α) : Prop := x = pure a

theorem gives_bind {x : ExceptT MeaningError Id α} {f : α → ExceptT MeaningError Id β} {b : β} :
    Gives (x >>= f) b ↔ ∃ a, Gives x a ∧ Gives (f a) b := by
  constructor
  · intro h
    cases x with
    | ok a => exact ⟨a, rfl, h⟩
    | error e => cases h
  · rintro ⟨a, rfl, h⟩
    exact h

theorem gives_pure {a b : α} : Gives (pure a) b ↔ b = a :=
  ⟨fun h => by cases h; rfl, fun h => h ▸ rfl⟩

theorem gives_liftExcept {x : Except MeaningError α} {a : α} :
    Gives (liftExcept x : ExceptT MeaningError Id α) a ↔ x = .ok a := by
  cases x with
  | ok b => exact gives_pure.trans ⟨fun h => h ▸ rfl, fun h => by cases h; rfl⟩
  | error e => exact ⟨nofun, nofun⟩

/-- A function can be called for its value, wherever the call stands. -/
def Vocabulary.CanCall (v : Vocabulary) (name : String) (count : Nat) : Prop :=
  v.checkValueCall nowhere name count = .ok ()

/-- A function called as a predicate stands for a relation, wherever the call stands. -/
def Vocabulary.Relates (v : Vocabulary) (name : String) (count : Nat) (r : Relation) : Prop :=
  v.relation nowhere name count = .ok r

variable {v : Vocabulary} {s : Span}

theorem Vocabulary.checkValueCall_iff {name : String} {count : Nat} :
    v.checkValueCall s name count = .ok () ↔ v.CanCall name count := by
  unfold CanCall checkValueCall checkCount
  repeat' split
  all_goals simp

theorem Vocabulary.relation_iff {name : String} {count : Nat} {r : Relation} :
    v.relation s name count = .ok r ↔ v.Relates name count r := by
  unfold Relates relation checkCount
  repeat' split
  all_goals simp [Except.map]

namespace Operand

/-- The tree that is made from the operand. -/
abbrev Denotes (v : Vocabulary) (o : Operand) (e : Expression) : Prop := Gives (o.make v .tree) e

def IsBound : Operand → Prop
  | .literal _ (.date _) | .literal _ (.timestamp _) | .property _ _ | .call _ _ _ => True
  | _ => False

/-- The tree that is made from the operand as a bound of an interval. -/
def DenotesBound (v : Vocabulary) (o : Operand) (e : Expression) : Prop :=
  (∃ s, o = .openBound s ∧ e = .openBound) ∨ (o.IsBound ∧ o.Denotes v e)

variable {o left right start stop : Operand} {e : Expression} {name : String}

theorem denotes_literal {l : Literal} : (literal s l).Denotes v e ↔ e = .literal l.toValue :=
  gives_pure

theorem denotes_property {p : PropertyName} : (property s p).Denotes v e ↔ e = .property p.path :=
  gives_pure

theorem gives_makeAll {os : List Operand} {es : List Expression} :
    Gives (makeAll v .tree os) es ↔ List.Forall₂ (Denotes v) os es := by
  induction os generalizing es with
  | nil => exact gives_pure.trans (by simp)
  | cons o os ih =>
    rw [makeAll, gives_bind]
    constructor
    · rintro ⟨a, ha, h⟩
      obtain ⟨as, has, h⟩ := gives_bind.1 h
      rw [gives_pure.1 h]
      exact .cons ha (ih.1 has)
    · rintro (_ | ⟨ha, has⟩)
      exact ⟨_, ha, gives_bind.2 ⟨_, ih.2 has, rfl⟩⟩

theorem denotes_call {args : List Operand} :
    (call s name args).Denotes v e ↔ v.CanCall name args.length ∧
      ∃ es, List.Forall₂ (Denotes v) args es ∧ e = .call name es := by
  rw [Denotes, make, gives_bind]
  constructor
  · rintro ⟨_, hc, h⟩
    obtain ⟨es, hes, h⟩ := gives_bind.1 h
    exact ⟨Vocabulary.checkValueCall_iff.1 (gives_liftExcept.1 hc), es, gives_makeAll.1 hes,
      gives_pure.1 h⟩
  · rintro ⟨hc, es, hes, rfl⟩
    exact ⟨(), gives_liftExcept.2 (Vocabulary.checkValueCall_iff.2 hc),
      gives_bind.2 ⟨es, gives_makeAll.2 hes, rfl⟩⟩

theorem denotes_arithmetic {op : ArithmeticOp} :
    (arithmetic s op left right).Denotes v e ↔
      ∃ l r, left.Denotes v l ∧ right.Denotes v r ∧ e = .arithmetic op l r := by
  rw [Denotes, make, gives_bind]
  constructor
  · rintro ⟨l, hl, h⟩
    obtain ⟨r, hr, h⟩ := gives_bind.1 h
    exact ⟨l, r, hl, hr, gives_pure.1 h⟩
  · rintro ⟨l, r, hl, hr, rfl⟩
    exact ⟨l, hl, gives_bind.2 ⟨r, hr, rfl⟩⟩

theorem gives_asBound : Gives (o.asBound .tree (o.make v .tree)) e ↔ o.DenotesBound v e := by
  unfold DenotesBound
  cases o with
  | openBound s =>
    exact gives_pure.trans ⟨fun h => .inl ⟨s, rfl, h⟩, fun h => h.elim (fun h => h.choose_spec.2)
      fun h => h.1.elim⟩
  | literal s l => cases l <;> simp [asBound, IsBound, Gives] <;> rintro ⟨⟩
  | property s n => simp [asBound, IsBound, Gives]
  | call s name args => simp [asBound, IsBound, Gives]
  | arithmetic s op l r => simp [asBound, IsBound, Gives]; rintro ⟨⟩
  | interval s a b => simp [asBound, IsBound, Gives]; rintro ⟨⟩
  | geometry s g srid => simp [asBound, IsBound, Gives]; rintro ⟨⟩

theorem denotes_interval : (interval s start stop).Denotes v e ↔
    ∃ a b, start.DenotesBound v a ∧ stop.DenotesBound v b ∧ e = .literal (.interval a b) := by
  rw [Denotes, make, gives_bind]
  constructor
  · rintro ⟨a, ha, h⟩
    obtain ⟨b, hb, h⟩ := gives_bind.1 h
    exact ⟨a, b, gives_asBound.1 ha, gives_asBound.1 hb, gives_pure.1 h⟩
  · rintro ⟨a, b, ha, hb, rfl⟩
    exact ⟨a, gives_asBound.2 ha, gives_bind.2 ⟨b, gives_asBound.2 hb, rfl⟩⟩

theorem not_denotes_openBound : ¬ (openBound s).Denotes v e := nofun

theorem denotes_geometry {g : Geometry} {srid : Option Int64} :
    (geometry s g srid).Denotes v e ↔ srid = none ∧ e = .literal (.geometry g) := by
  cases srid with
  | none => exact gives_pure.trans ⟨fun h => ⟨rfl, h⟩, fun h => h.2⟩
  | some n => exact ⟨nofun, fun h => nomatch h.1⟩

end Operand

def Relation.filter : Relation → Expression → Expression → Filter
  | .spatial op => .spatial op
  | .temporal op => .temporal op

namespace Condition

def negatedIf (negated : Bool) (f : Filter) : Filter := if negated then .negation f else f

abbrev Denotes (v : Vocabulary) (c : Condition) (f : Filter) : Prop := Gives (c.make v .tree) f

variable {c : Condition} {f : Filter} {left right value low high : Operand} {negated : Bool}

theorem gives_negated {a : Filter} :
    Gives (makeNegated .tree negated a) f ↔ f = negatedIf negated a := by
  cases negated <;> exact gives_pure

theorem gives_makeAll {cs : List Condition} {fs : List Filter} :
    Gives (makeAll v .tree cs) fs ↔ List.Forall₂ (Denotes v) cs fs := by
  induction cs generalizing fs with
  | nil => exact gives_pure.trans (by simp)
  | cons c cs ih =>
    rw [makeAll, gives_bind]
    constructor
    · rintro ⟨a, ha, h⟩
      obtain ⟨as, has, h⟩ := gives_bind.1 h
      rw [gives_pure.1 h]
      exact .cons ha (ih.1 has)
    · rintro (_ | ⟨ha, has⟩)
      exact ⟨_, ha, gives_bind.2 ⟨_, ih.2 has, rfl⟩⟩

theorem gives_makeEqualities {x : Expression} {os : List Operand} {fs : List Filter} :
    Gives (makeEqualities v .tree x os) fs ↔
      ∃ es, List.Forall₂ (Operand.Denotes v) os es ∧ fs = es.map (.compare .eq x) := by
  induction os generalizing fs with
  | nil => exact gives_pure.trans ⟨fun h => ⟨[], .nil, h⟩, fun ⟨_, .nil, h⟩ => h⟩
  | cons o os ih =>
    rw [makeEqualities, gives_bind]
    constructor
    · rintro ⟨e, he, h⟩
      obtain ⟨_, hc, h⟩ := gives_bind.1 h
      obtain ⟨fs, hfs, h⟩ := gives_bind.1 h
      obtain ⟨es, hes, rfl⟩ := ih.1 hfs
      rw [gives_pure.1 h, gives_pure.1 hc]
      exact ⟨e :: es, .cons he hes, rfl⟩
    · rintro ⟨_, _ | ⟨he, hes⟩, rfl⟩
      exact ⟨_, he, gives_bind.2 ⟨_, rfl, gives_bind.2 ⟨_, ih.2 ⟨_, hes, rfl⟩, rfl⟩⟩⟩

theorem denotes_any {cs : List Condition} :
    (any s cs).Denotes v f ↔ ∃ fs, List.Forall₂ (Denotes v) cs fs ∧ f = .any fs := by
  rw [Denotes, make, gives_bind]
  exact exists_congr fun fs => and_congr gives_makeAll gives_pure

theorem denotes_all {cs : List Condition} :
    (all s cs).Denotes v f ↔ ∃ fs, List.Forall₂ (Denotes v) cs fs ∧ f = .all fs := by
  rw [Denotes, make, gives_bind]
  exact exists_congr fun fs => and_congr gives_makeAll gives_pure

theorem denotes_negation : (negation s c).Denotes v f ↔ ∃ a, c.Denotes v a ∧ f = .negation a := by
  rw [Denotes, make, gives_bind]
  exact exists_congr fun a => and_congr_right fun _ => gives_pure

theorem denotes_compare {op : ComparisonOp} :
    (compare s op left right).Denotes v f ↔
      ∃ l, left.Denotes v l ∧ ∃ r, right.Denotes v r ∧ f = .compare op l r := by
  rw [Denotes, make, gives_bind]
  refine exists_congr fun l => and_congr_right fun _ => ?_
  rw [gives_bind]
  exact exists_congr fun r => and_congr_right fun _ => gives_pure

theorem denotes_between :
    (between s negated value low high).Denotes v f ↔
      ∃ x, value.Denotes v x ∧ ∃ l, low.Denotes v l ∧ ∃ h, high.Denotes v h ∧
        f = negatedIf negated (.between x l h) := by
  rw [Denotes, make, gives_bind]
  refine exists_congr fun x => and_congr_right fun _ => ?_
  rw [gives_bind]
  refine exists_congr fun l => and_congr_right fun _ => ?_
  rw [gives_bind]
  exact exists_congr fun h => and_congr_right fun _ => gives_negated

theorem denotes_like {pattern : String} {matchCase : Bool} :
    (like s negated value pattern matchCase).Denotes v f ↔
      ∃ x, value.Denotes v x ∧ f = negatedIf negated (.like x pattern matchCase) := by
  rw [Denotes, make, gives_bind]
  exact exists_congr fun x => and_congr_right fun _ => gives_negated

theorem denotes_isNull :
    (isNull s negated value).Denotes v f ↔
      ∃ x, value.Denotes v x ∧ f = negatedIf negated (.isNull x) := by
  rw [Denotes, make, gives_bind]
  exact exists_congr fun x => and_congr_right fun _ => gives_negated

theorem denotes_inList {choices : List Operand} :
    (inList s negated value choices).Denotes v f ↔
      ∃ x, value.Denotes v x ∧ ∃ es, List.Forall₂ (Operand.Denotes v) choices es ∧
        f = negatedIf negated (.any (es.map (.compare .eq x))) := by
  rw [Denotes, make, gives_bind]
  refine exists_congr fun x => and_congr_right fun _ => ?_
  rw [gives_bind]
  constructor
  · rintro ⟨_, hfs, h⟩
    obtain ⟨es, hes, rfl⟩ := gives_makeEqualities.1 hfs
    exact ⟨es, hes, gives_negated.1 h⟩
  · rintro ⟨es, hes, h⟩
    exact ⟨_, gives_makeEqualities.2 ⟨es, hes, rfl⟩, gives_negated.2 h⟩

theorem denotes_call {name : String} {args : List Operand} :
    (call s name args).Denotes v f ↔
      ∃ left right r, args = [left, right] ∧ v.Relates name 2 r ∧
        ∃ a, left.Denotes v a ∧ ∃ b, right.Denotes v b ∧ f = r.filter a b := by
  rw [Denotes, make, gives_bind]
  constructor
  · rintro ⟨r, hr, h⟩
    have hr := Vocabulary.relation_iff.1 (gives_liftExcept.1 hr)
    rcases args with _ | ⟨left, _ | ⟨right, _ | ⟨_, _⟩⟩⟩
    · cases h
    · cases h
    · obtain ⟨a, ha, h⟩ := gives_bind.1 h
      obtain ⟨b, hb, h⟩ := gives_bind.1 h
      refine ⟨left, right, r, rfl, hr, a, ha, b, hb, ?_⟩
      cases r <;> exact gives_pure.1 h
    · cases h
  · rintro ⟨left, right, r, rfl, hr, a, ha, b, hb, rfl⟩
    refine ⟨r, gives_liftExcept.2 (Vocabulary.relation_iff.2 hr), gives_bind.2 ⟨a, ha,
      gives_bind.2 ⟨b, hb, ?_⟩⟩⟩
    cases r <;> rfl

end Condition

/-! ## Without places -/

section Bare

open Operand (bareAll)

theorem Operand.denotesBound_bare {o : Operand} {e : Expression}
    (h : o.bare.Denotes v e ↔ o.Denotes v e) : o.bare.DenotesBound v e ↔ o.DenotesBound v e := by
  unfold DenotesBound
  rw [h]
  cases o with
  | literal s l => cases l <;> simp [bare, IsBound]
  | _ => simp [bare, IsBound]

mutual

theorem Operand.denotes_bare : ∀ {o : Operand} {e : Expression},
    o.bare.Denotes v e ↔ o.Denotes v e
  | .literal _ _, _ | .property _ _, _ => Iff.rfl
  | .openBound _, _ => ⟨nofun, nofun⟩
  | .geometry _ _ srid, _ => by rw [bare, denotes_geometry, denotes_geometry]
  | .call _ name args, e => by
    rw [bare, denotes_call, denotes_call, Operand.bareAll_eq, List.length_map,
      ← Operand.bareAll_eq]
    simp only [Operand.forall₂_denotes_bare]
  | .arithmetic _ op left right, e => by
    rw [bare, denotes_arithmetic, denotes_arithmetic]
    simp only [Operand.denotes_bare (o := left), Operand.denotes_bare (o := right)]
  | .interval _ start stop, e => by
    rw [bare, denotes_interval, denotes_interval]
    simp only [Operand.denotesBound_bare (Operand.denotes_bare (o := start)),
      Operand.denotesBound_bare (Operand.denotes_bare (o := stop))]

theorem Operand.forall₂_denotes_bare : ∀ {os : List Operand} {es : List Expression},
    List.Forall₂ (Operand.Denotes v) (bareAll os) es ↔ List.Forall₂ (Operand.Denotes v) os es
  | [], _ => Iff.rfl
  | o :: os, [] => by simp [bareAll]
  | o :: os, e :: es => by
    rw [bareAll, List.forall₂_cons, List.forall₂_cons, Operand.denotes_bare,
      Operand.forall₂_denotes_bare]

end

namespace Condition

mutual

theorem denotes_bare : ∀ {c : Condition} {f : Filter}, c.bare.Denotes v f ↔ c.Denotes v f
  | .any _ cs, f => by
    rw [bare, denotes_any, denotes_any]
    simp only [forall₂_denotes_bare]
  | .all _ cs, f => by
    rw [bare, denotes_all, denotes_all]
    simp only [forall₂_denotes_bare]
  | .negation _ c, f => by
    rw [bare, denotes_negation, denotes_negation]
    simp only [denotes_bare (c := c)]
  | .compare _ op left right, f => by
    rw [bare, denotes_compare, denotes_compare]
    simp only [Operand.denotes_bare]
  | .between _ negated value low high, f => by
    rw [bare, denotes_between, denotes_between]
    simp only [Operand.denotes_bare]
  | .like _ negated value pattern matchCase, f => by
    rw [bare, denotes_like, denotes_like]
    simp only [Operand.denotes_bare]
  | .isNull _ negated value, f => by
    rw [bare, denotes_isNull, denotes_isNull]
    simp only [Operand.denotes_bare]
  | .inList _ negated value choices, f => by
    rw [bare, denotes_inList, denotes_inList]
    simp only [Operand.denotes_bare, Operand.forall₂_denotes_bare]
  | .call _ name args, f => by
    rw [bare, denotes_call, denotes_call]
    constructor
    · rintro ⟨left, right, r, hargs, hr, a, ha, b, hb, rfl⟩
      match args, hargs with
      | [left', right'], rfl =>
        exact ⟨left', right', r, rfl, hr, a, Operand.denotes_bare.1 ha, b,
          Operand.denotes_bare.1 hb, rfl⟩
    · rintro ⟨left, right, r, rfl, hr, a, ha, b, hb, rfl⟩
      exact ⟨_, _, r, rfl, hr, a, Operand.denotes_bare.2 ha, b, Operand.denotes_bare.2 hb, rfl⟩

theorem forall₂_denotes_bare : ∀ {cs : List Condition} {fs : List Filter},
    List.Forall₂ (Denotes v) (bareClauses cs) fs ↔ List.Forall₂ (Denotes v) cs fs
  | [], _ => Iff.rfl
  | c :: cs, [] => by simp [bareClauses]
  | c :: cs, f :: fs => by
    rw [bareClauses, List.forall₂_cons, List.forall₂_cons, denotes_bare, forall₂_denotes_bare]

end

end Condition

end Bare

/-! ## Larger vocabularies -/

/-- The vocabulary gives every name the meaning that another one gives it, and may know more. -/
structure Vocabulary.Extends (v' v : Vocabulary) : Prop where
  catalog : v'.catalog = v.catalog
  allowUnknown : v.allowUnknown = true → v'.allowUnknown = true

section Extends

variable {v' : Vocabulary}

theorem Vocabulary.Extends.canCall {name : String} {count : Nat} (h : v'.Extends v)
    (hc : v.CanCall name count) : v'.CanCall name count := by
  unfold CanCall checkValueCall at *
  rw [h.catalog]
  split
  · rename_i hs
    rw [hs] at hc
    exact hc
  · rename_i hs
    rw [hs] at hc
    cases hu : v.allowUnknown with
    | true =>
      rw [hu] at hc
      rw [h.allowUnknown hu]
      exact hc
    | false =>
      rw [hu] at hc
      cases hc

theorem Vocabulary.Extends.relates {name : String} {count : Nat} {r : Relation}
    (h : v'.Extends v) (hr : v.Relates name count r) : v'.Relates name count r := by
  unfold Relates relation at *
  rwa [h.catalog]

mutual

theorem Operand.Denotes.extend (hv : v'.Extends v) : ∀ {o : Operand} {e : Expression},
    o.Denotes v e → o.Denotes v' e
  | .literal _ _, _, h | .property _ _, _, h => h
  | .openBound _, _, h => nomatch h
  | .geometry _ _ _, _, h => denotes_geometry.2 (denotes_geometry.1 h)
  | .call _ name args, _, h => by
    obtain ⟨hc, es, hes, rfl⟩ := denotes_call.1 h
    exact denotes_call.2 ⟨hv.canCall hc, es, Operand.extend_forall₂ hv hes, rfl⟩
  | .arithmetic _ op left right, _, h => by
    obtain ⟨l, r, hl, hr, rfl⟩ := denotes_arithmetic.1 h
    exact denotes_arithmetic.2 ⟨l, r, Denotes.extend hv hl, Denotes.extend hv hr, rfl⟩
  | .interval _ start stop, _, h => by
    obtain ⟨a, b, ha, hb, rfl⟩ := denotes_interval.1 h
    exact denotes_interval.2 ⟨a, b, ha.imp_right (And.imp_right (Denotes.extend hv)),
      hb.imp_right (And.imp_right (Denotes.extend hv)), rfl⟩

theorem Operand.extend_forall₂ (hv : v'.Extends v) : ∀ {os : List Operand} {es : List Expression},
    List.Forall₂ (Operand.Denotes v) os es → List.Forall₂ (Operand.Denotes v') os es
  | [], _, h => by cases h; exact .nil
  | _ :: _, _, h => by
    cases h with
    | cons ho hos => exact .cons (Operand.Denotes.extend hv ho) (Operand.extend_forall₂ hv hos)

end

namespace Condition

open Operand (extend_forall₂)

mutual

/-- A phrase denotes the same in a larger vocabulary. -/
theorem Denotes.extend (hv : v'.Extends v) : ∀ {c : Condition} {f : Filter},
    c.Denotes v f → c.Denotes v' f
  | .any _ cs, _, h => by
    obtain ⟨fs, hfs, rfl⟩ := denotes_any.1 h
    exact denotes_any.2 ⟨fs, extendAll hv hfs, rfl⟩
  | .all _ cs, _, h => by
    obtain ⟨fs, hfs, rfl⟩ := denotes_all.1 h
    exact denotes_all.2 ⟨fs, extendAll hv hfs, rfl⟩
  | .negation _ c, _, h => by
    obtain ⟨a, ha, rfl⟩ := denotes_negation.1 h
    exact denotes_negation.2 ⟨a, Denotes.extend hv ha, rfl⟩
  | .compare _ op left right, _, h => by
    obtain ⟨l, hl, r, hr, rfl⟩ := denotes_compare.1 h
    exact denotes_compare.2 ⟨l, hl.extend hv, r, hr.extend hv, rfl⟩
  | .between _ negated value low high, _, h => by
    obtain ⟨x, hx, l, hl, y, hy, rfl⟩ := denotes_between.1 h
    exact denotes_between.2 ⟨x, hx.extend hv, l, hl.extend hv, y, hy.extend hv, rfl⟩
  | .like _ negated value pattern matchCase, _, h => by
    obtain ⟨x, hx, rfl⟩ := denotes_like.1 h
    exact denotes_like.2 ⟨x, hx.extend hv, rfl⟩
  | .isNull _ negated value, _, h => by
    obtain ⟨x, hx, rfl⟩ := denotes_isNull.1 h
    exact denotes_isNull.2 ⟨x, hx.extend hv, rfl⟩
  | .inList _ negated value choices, _, h => by
    obtain ⟨x, hx, es, hes, rfl⟩ := denotes_inList.1 h
    exact denotes_inList.2 ⟨x, hx.extend hv, es, extend_forall₂ hv hes, rfl⟩
  | .call _ name args, _, h => by
    obtain ⟨left, right, r, rfl, hr, a, ha, b, hb, rfl⟩ := denotes_call.1 h
    exact denotes_call.2 ⟨left, right, r, rfl, hv.relates hr, a, ha.extend hv, b, hb.extend hv, rfl⟩

theorem extendAll (hv : v'.Extends v) : ∀ {cs : List Condition} {fs : List Filter},
    List.Forall₂ (Denotes v) cs fs → List.Forall₂ (Denotes v') cs fs
  | [], _, h => by cases h; exact .nil
  | _ :: _, _, h => by
    cases h with
    | cons hc hcs => exact .cons (Denotes.extend hv hc) (extendAll hv hcs)

end

end Condition

end Extends

end FeatureFilter
