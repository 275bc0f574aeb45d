import FeatureFilter.Proofs.Syntax.Denotation

/-!
# What is wrong with a phrase

A node of a phrase violates a rule when its name is not known in its place, when it has arguments of
another number, or when it stands where it cannot (`PhraseNode.Violates`). Each rule looks at one
node alone. Making the nodes of a phrase applies the rules on the way: it ends with the error of the
first node in pre-order that violates one, and succeeds if there is none (`judged_make`), whatever
the maker does with the nodes it is asked for.
-/

namespace FeatureFilter

/-! ## Nodes and rules -/

/-- Where an operand stands: where a value is asked for, or as a bound of an interval. -/
inductive Place where
  | value
  | bound

inductive PhraseNode where
  | operand (place : Place) (o : Operand)
  | condition (c : Condition)

variable {v : Vocabulary}

/-- What can be wrong with an operand alone, where a value is asked for. -/
inductive Operand.Violates (v : Vocabulary) : Operand → MeaningError → Prop
  | predicateAsValue {span name args s} (known : v.catalog.lookup name = some s)
      (kind : s.kind.isPredicate = true) :
      Violates v (.call span name args) ⟨.predicateAsValue name, span⟩
  | wrongArity {span name args s} (known : v.catalog.lookup name = some s)
      (kind : s.kind = .generic) (count : s.accepts args.length = false) :
      Violates v (.call span name args) ⟨.wrongArity name s.arity args.length, span⟩
  | functionNotFound {span name args} (unknown : v.catalog.lookup name = none)
      (refused : v.allowUnknown = false ∨ isPredicateName name = true) :
      Violates v (.call span name args) ⟨.functionNotFound name, span⟩
  | sridPrefix {span g srid} :
      Violates v (.geometry span g (some srid)) ⟨.sridPrefix srid, span⟩
  | openBound {span} :
      Violates v (.openBound span) ⟨.invalidBound "'..' outside INTERVAL", span⟩

inductive Condition.Violates (v : Vocabulary) : Condition → MeaningError → Prop
  | functionNotFound {span name args} (unknown : v.catalog.lookup name = none) :
      Violates v (.call span name args) ⟨.functionNotFound name, span⟩
  | notAPredicate {span name args s} (known : v.catalog.lookup name = some s)
      (kind : s.kind = .generic) :
      Violates v (.call span name args) ⟨.notAPredicate name, span⟩
  | wrongArity {span name args s r} (known : v.catalog.lookup name = some s)
      (kind : s.kind = .predicate r) (count : s.accepts args.length = false) :
      Violates v (.call span name args) ⟨.wrongArity name s.arity args.length, span⟩
  | notPair {span name args s r} (known : v.catalog.lookup name = some s)
      (kind : s.kind = .predicate r) (count : s.accepts args.length = true)
      (pair : args.length ≠ 2) :
      Violates v (.call span name args) ⟨.wrongArity name "2" args.length, span⟩

/-- The node violates a rule, and the error says so. That an operand cannot be a bound goes before
what else is wrong with it. -/
inductive PhraseNode.Violates (v : Vocabulary) : PhraseNode → MeaningError → Prop
  | value {o e} (wrong : o.Violates v e) : Violates v (.operand .value o) e
  | bound {o e} (fits : o.IsBound) (wrong : o.Violates v e) : Violates v (.operand .bound o) e
  | misplaced {o} (fits : ¬ o.IsBound) (closed : ∀ span, o ≠ .openBound span) :
      Violates v (.operand .bound o) ⟨.invalidBound o.describe, o.span⟩
  | condition {c e} (wrong : c.Violates v e) : Violates v (.condition c) e

/-! ## The nodes of a phrase in pre-order -/

namespace Operand

mutual

def nodes : Place → Operand → List PhraseNode
  | place, .call span name args => .operand place (.call span name args) :: nodesAll args
  | place, .arithmetic span op left right =>
    .operand place (.arithmetic span op left right) :: (left.nodes .value ++ right.nodes .value)
  | place, .interval span start stop =>
    .operand place (.interval span start stop) :: (start.nodes .bound ++ stop.nodes .bound)
  | place, .literal span value => [.operand place (.literal span value)]
  | place, .property span name => [.operand place (.property span name)]
  | place, .openBound span => [.operand place (.openBound span)]
  | place, .geometry span g srid => [.operand place (.geometry span g srid)]

def nodesAll : List Operand → List PhraseNode
  | [] => []
  | o :: os => o.nodes .value ++ nodesAll os

end

end Operand

namespace Condition

mutual

def nodes : Condition → List PhraseNode
  | .any span clauses => .condition (.any span clauses) :: nodesAll clauses
  | .all span clauses => .condition (.all span clauses) :: nodesAll clauses
  | .negation span clause => .condition (.negation span clause) :: clause.nodes
  | .compare span op left right =>
    .condition (.compare span op left right) :: (left.nodes .value ++ right.nodes .value)
  | .between span negated value low high =>
    .condition (.between span negated value low high) ::
      (value.nodes .value ++ (low.nodes .value ++ high.nodes .value))
  | .like span negated value pattern matchCase =>
    .condition (.like span negated value pattern matchCase) :: value.nodes .value
  | .isNull span negated value => .condition (.isNull span negated value) :: value.nodes .value
  | .inList span negated value choices =>
    .condition (.inList span negated value choices) ::
      (value.nodes .value ++ Operand.nodesAll choices)
  | .call span name args => .condition (.call span name args) :: Operand.nodesAll args

def nodesAll : List Condition → List PhraseNode
  | [] => []
  | c :: cs => c.nodes ++ nodesAll cs

end

end Condition

/-- The error is that of the first of the nodes that violates a rule. -/
def FirstViolation (v : Vocabulary) (nodes : List PhraseNode) (e : MeaningError) : Prop :=
  ∃ before n after, nodes = before ++ n :: after ∧ (∀ b ∈ before, ∀ e', ¬ b.Violates v e') ∧
    n.Violates v e

/-- The result is the one that the rules leave for a phrase with these nodes. -/
structure Judged (v : Vocabulary) (nodes : List PhraseNode) (result : Except MeaningError α) :
    Prop where
  ok_iff : (∃ a, result = .ok a) ↔ ∀ n ∈ nodes, ∀ e, ¬ n.Violates v e
  error_iff : ∀ e, result = .error e ↔ FirstViolation v nodes e

/-! ## The rules as a check -/

def Operand.violation? (v : Vocabulary) : Operand → Option MeaningError
  | .call span name args =>
    match v.checkValueCall span name args.length with
    | .ok () => none
    | .error e => some e
  | .geometry span _ (some srid) => some ⟨.sridPrefix srid, span⟩
  | .openBound span => some ⟨.invalidBound "'..' outside INTERVAL", span⟩
  | _ => none

def Operand.boundViolation? (v : Vocabulary) : Operand → Option MeaningError
  | .openBound _ | .literal _ (.date _) | .literal _ (.timestamp _) | .property _ _ => none
  | .call span name args => violation? v (.call span name args)
  | o => some ⟨.invalidBound o.describe, o.span⟩

def Condition.violation? (v : Vocabulary) : Condition → Option MeaningError
  | .call span name args =>
    match v.relation span name args.length with
    | .ok _ => if args.length = 2 then none else some ⟨.wrongArity name "2" args.length, span⟩
    | .error e => some e
  | _ => none

def PhraseNode.violation? (v : Vocabulary) : PhraseNode → Option MeaningError
  | .operand .value o => o.violation? v
  | .operand .bound o => o.boundViolation? v
  | .condition c => c.violation? v

namespace Operand

variable {o : Operand} {e : MeaningError} {span : Span} {name : String} {args : List Operand}

theorem violates_call (h : v.checkValueCall span name args.length = .error e) :
    Violates v (.call span name args) e := by
  cases hs : v.catalog.lookup name with
  | none =>
    have href : v.allowUnknown = false ∨ isPredicateName name = true := by
      by_contra hok
      simp only [not_or, Bool.not_eq_false, Bool.not_eq_true] at hok
      simp [Vocabulary.checkValueCall, hs, hok.1, hok.2] at h
    have he : e = ⟨.functionNotFound name, span⟩ := by
      rcases href with href | href <;> simpa [Vocabulary.checkValueCall, hs, href] using h.symm
    exact he ▸ .functionNotFound hs href
  | some s =>
    cases hk : s.kind with
    | predicate r =>
      have he : e = ⟨.predicateAsValue name, span⟩ := by
        simpa [Vocabulary.checkValueCall, hs, hk, FunctionKind.isPredicate] using h.symm
      exact he ▸ .predicateAsValue hs (by rw [hk]; rfl)
    | generic =>
      cases hcount : s.accepts args.length with
      | true =>
        simp [Vocabulary.checkValueCall, Vocabulary.checkCount, hs, hk, hcount,
          FunctionKind.isPredicate] at h
      | false =>
        have he : e = ⟨.wrongArity name s.arity args.length, span⟩ := by
          simpa [Vocabulary.checkValueCall, Vocabulary.checkCount, hs, hk, hcount,
            FunctionKind.isPredicate] using h.symm
        exact he ▸ .wrongArity hs hk hcount

theorem violation?_eq_some_iff : o.violation? v = some e ↔ o.Violates v e := by
  constructor
  · intro h
    cases o with
    | call span name args =>
      simp only [violation?] at h
      split at h
      · cases h
      · rename_i hcheck
        cases h
        exact violates_call hcheck
    | geometry span g srid =>
      cases srid with
      | none => cases h
      | some n =>
        cases h
        exact .sridPrefix
    | openBound span =>
      cases h
      exact .openBound
    | _ => cases h
  · intro h
    cases h with
    | predicateAsValue hs hkind => simp [violation?, Vocabulary.checkValueCall, hs, hkind]
    | wrongArity hs hkind hcount =>
      simp [violation?, Vocabulary.checkValueCall, Vocabulary.checkCount, hs, hkind, hcount,
        FunctionKind.isPredicate]
    | functionNotFound hnone hrefused =>
      rcases hrefused with h | h <;> simp [violation?, Vocabulary.checkValueCall, hnone, h]
    | sridPrefix => rfl
    | openBound => rfl

theorem boundViolation?_of_isBound (h : o.IsBound) : o.boundViolation? v = o.violation? v := by
  cases o with
  | literal s l =>
    cases l with
    | date | timestamp => rfl
    | _ => exact h.elim
  | property | call => rfl
  | _ => exact h.elim

theorem boundViolation?_of_not_isBound (h : ¬ o.IsBound) (ho : ∀ s, o ≠ .openBound s) :
    o.boundViolation? v = some ⟨.invalidBound o.describe, o.span⟩ := by
  cases o with
  | literal s l =>
    cases l with
    | date | timestamp => exact absurd trivial h
    | _ => rfl
  | property | call => exact absurd trivial h
  | openBound s => exact absurd rfl (ho s)
  | _ => rfl

end Operand

namespace Condition

variable {c : Condition} {e : MeaningError} {span : Span} {name : String} {args : List Operand}

theorem violates_call (h : v.relation span name args.length = .error e) :
    Violates v (.call span name args) e := by
  cases hs : v.catalog.lookup name with
  | none =>
    have he : e = ⟨.functionNotFound name, span⟩ := by
      simpa [Vocabulary.relation, hs] using h.symm
    exact he ▸ .functionNotFound hs
  | some s =>
    cases hk : s.kind with
    | generic =>
      have he : e = ⟨.notAPredicate name, span⟩ := by
        simpa [Vocabulary.relation, hs, hk] using h.symm
      exact he ▸ .notAPredicate hs hk
    | predicate r =>
      cases hcount : s.accepts args.length with
      | true => simp [Vocabulary.relation, Vocabulary.checkCount, hs, hk, hcount, Except.map] at h
      | false =>
        have he : e = ⟨.wrongArity name s.arity args.length, span⟩ := by
          simpa [Vocabulary.relation, Vocabulary.checkCount, hs, hk, hcount, Except.map]
            using h.symm
        exact he ▸ .wrongArity hs hk hcount

/-- A relation is one between two values, whatever its signature says. -/
theorem violates_call_of_length {r : Relation} (h : v.relation span name args.length = .ok r)
    (hl : args.length ≠ 2) :
    Violates v (.call span name args) ⟨.wrongArity name "2" args.length, span⟩ := by
  cases hs : v.catalog.lookup name with
  | none => simp [Vocabulary.relation, hs] at h
  | some s =>
    cases hk : s.kind with
    | generic => simp [Vocabulary.relation, hs, hk] at h
    | predicate r' =>
      cases hcount : s.accepts args.length with
      | false => simp [Vocabulary.relation, Vocabulary.checkCount, hs, hk, hcount, Except.map] at h
      | true => exact .notPair hs hk hcount hl

theorem violation?_eq_some_iff : c.violation? v = some e ↔ c.Violates v e := by
  constructor
  · intro h
    cases c with
    | call span name args =>
      simp only [violation?] at h
      split at h
      · rename_i hr
        split at h
        · cases h
        · rename_i hl
          cases h
          exact violates_call_of_length hr hl
      · rename_i hr
        cases h
        exact violates_call hr
    | _ => cases h
  · intro h
    cases h with
    | functionNotFound hnone => simp [violation?, Vocabulary.relation, hnone]
    | notAPredicate hs hk => simp [violation?, Vocabulary.relation, hs, hk]
    | wrongArity hs hk hcount =>
      simp [violation?, Vocabulary.relation, Vocabulary.checkCount, hs, hk, hcount, Except.map]
    | notPair hs hk hcount hl =>
      simp [violation?, Vocabulary.relation, Vocabulary.checkCount, hs, hk, hcount, hl, Except.map]

end Condition

def firstError (v : Vocabulary) (nodes : List PhraseNode) : Option MeaningError :=
  nodes.findSome? (PhraseNode.violation? v)

namespace PhraseNode

variable {n : PhraseNode} {e : MeaningError}

theorem violation?_eq_some_iff : n.violation? v = some e ↔ n.Violates v e := by
  constructor
  · intro h
    rcases n with ⟨_ | _, o⟩ | c
    · exact .value (Operand.violation?_eq_some_iff.1 h)
    · by_cases hb : o.IsBound
      · rw [violation?, Operand.boundViolation?_of_isBound hb] at h
        exact .bound hb (Operand.violation?_eq_some_iff.1 h)
      · by_cases ho : ∃ s, o = .openBound s
        · obtain ⟨s, rfl⟩ := ho
          cases h
        · have ho' : ∀ s, o ≠ .openBound s := fun s hs => ho ⟨s, hs⟩
          rw [violation?, Operand.boundViolation?_of_not_isBound hb ho'] at h
          cases h
          exact .misplaced hb ho'
    · exact .condition (Condition.violation?_eq_some_iff.1 h)
  · intro h
    cases h with
    | value h => exact Operand.violation?_eq_some_iff.2 h
    | bound hb h =>
      rw [violation?, Operand.boundViolation?_of_isBound hb]
      exact Operand.violation?_eq_some_iff.2 h
    | misplaced hb ho => exact Operand.boundViolation?_of_not_isBound hb ho
    | condition h => exact Condition.violation?_eq_some_iff.2 h

theorem violation?_eq_none_iff : n.violation? v = none ↔ ∀ e, ¬ n.Violates v e := by
  simp only [Option.eq_none_iff_forall_ne_some, ne_eq, violation?_eq_some_iff]

end PhraseNode

section FirstError

variable {n : PhraseNode} {nodes nodes' : List PhraseNode} {e : MeaningError}

theorem firstError_cons :
    firstError v (n :: nodes) = (n.violation? v).or (firstError v nodes) := by
  rw [firstError, List.findSome?_cons]
  cases n.violation? v <;> rfl

theorem firstError_append :
    firstError v (nodes ++ nodes') = (firstError v nodes).or (firstError v nodes') :=
  List.findSome?_append

theorem firstError_eq_some_iff : firstError v nodes = some e ↔ FirstViolation v nodes e := by
  rw [firstError, List.findSome?_eq_some_iff]
  simp only [PhraseNode.violation?_eq_some_iff, PhraseNode.violation?_eq_none_iff]
  constructor
  · rintro ⟨before, n, after, hn, hv, hb⟩
    exact ⟨before, n, after, hn, hb, hv⟩
  · rintro ⟨before, n, after, hn, hb, hv⟩
    exact ⟨before, n, after, hn, hv, hb⟩

theorem firstError_eq_none_iff :
    firstError v nodes = none ↔ ∀ n ∈ nodes, ∀ e, ¬ n.Violates v e := by
  simp only [firstError, List.findSome?_eq_none_iff, PhraseNode.violation?_eq_none_iff]

end FirstError

/-! ## Work that ends one way -/

section Ends

variable {m : Type → Type} [Monad m] {x : ExceptT MeaningError m α} {o o' : Option MeaningError}

/-- The work ends with a value if there is no error, and with the error otherwise, whatever happens
on the way. -/
def Ends (x : ExceptT MeaningError m α) : Option MeaningError → Prop
  | none => ∃ a : m α, x = liftM a
  | some e => ∃ a : m Unit, x = liftM a >>= fun _ => throw e

theorem ends_lift (a : m α) : Ends (liftM a : ExceptT MeaningError m α) none := ⟨a, rfl⟩

variable [LawfulMonad m]

theorem ends_pure (a : α) : Ends (pure a : ExceptT MeaningError m α) none :=
  ⟨pure a, (liftM_pure a).symm⟩

theorem ends_throw (e : MeaningError) : Ends (throw e : ExceptT MeaningError m α) (some e) :=
  ⟨pure (), by rw [liftM_pure, pure_bind]⟩

theorem throw_bind (e : MeaningError) (f : α → ExceptT MeaningError m β) :
    (throw e >>= f) = (throw e : ExceptT MeaningError m β) := by
  apply ExceptT.ext
  rw [ExceptT.run_bind, ExceptT.run_throw, ExceptT.run_throw, pure_bind]

theorem Ends.bind {f : α → ExceptT MeaningError m β} (hx : Ends x o) (hf : ∀ a, Ends (f a) o') :
    Ends (x >>= f) (o.or o') := by
  cases o with
  | some e =>
    obtain ⟨a, rfl⟩ := hx
    refine ⟨a, ?_⟩
    rw [bind_assoc]
    exact congrArg _ (funext fun _ => throw_bind e f)
  | none =>
    obtain ⟨a, rfl⟩ := hx
    cases o' with
    | none =>
      choose b hb using hf
      exact ⟨a >>= b, by rw [liftM_bind]; exact congrArg _ (funext hb)⟩
    | some e =>
      choose b hb using hf
      exact ⟨a >>= b, by rw [liftM_bind, bind_assoc]; exact congrArg _ (funext hb)⟩

/-- What comes last and cannot fail makes no difference. -/
theorem Ends.close {f : α → ExceptT MeaningError m β} (hx : Ends x o) (hf : ∀ a, Ends (f a) none) :
    Ends (x >>= f) o := by
  have h := hx.bind hf
  rwa [Option.or_none] at h

end Ends

/-! ## Making the nodes of a phrase -/

section Make

variable {m : Type → Type} [Monad m] [LawfulMonad m] {ε φ : Type} {mk : Maker m ε φ}

namespace Operand

theorem ends_checkValueCall (span : Span) (name : String) (args : List Operand) :
    Ends (liftExcept (v.checkValueCall span name args.length) : ExceptT MeaningError m Unit)
      ((call span name args).violation? v) := by
  rw [violation?]
  cases v.checkValueCall span name args.length with
  | ok _ => exact ends_pure ()
  | error e => exact ends_throw e

/-- An operand as a bound: either it can be none, and this comes first, or it is made like a value.
-/
theorem ends_asBound {o : Operand} {made : ExceptT MeaningError m ε}
    (h : Ends made (firstError v (o.nodes .value))) :
    Ends (o.asBound mk made) (firstError v (o.nodes .bound)) := by
  cases o with
  | literal s l =>
    cases l with
    | date | timestamp => exact h
    | _ => exact ends_throw _
  | property s name => exact h
  | call s name args =>
    rw [nodes, firstError_cons] at h ⊢
    exact h
  | openBound s => exact ends_lift _
  | geometry s g srid => exact ends_throw _
  | _ =>
    rw [nodes, firstError_cons]
    exact ends_throw _

mutual

theorem ends_make : ∀ o : Operand, Ends (o.make v mk) (firstError v (o.nodes .value))
  | .literal _ _ | .property _ _ | .geometry _ _ none => ends_lift _
  | .geometry _ _ (some _) | .openBound _ => ends_throw _
  | .call span name args => by
    rw [make, nodes, firstError_cons]
    exact (ends_checkValueCall span name args).bind fun _ =>
      (ends_makeAll args).close fun _ => ends_lift _
  | .arithmetic _ _ left right => by
    rw [make, nodes, firstError_cons, firstError_append]
    exact (ends_make left).bind fun _ => (ends_make right).close fun _ => ends_lift _
  | .interval _ start stop => by
    rw [make, nodes, firstError_cons, firstError_append]
    exact (ends_asBound (ends_make start)).bind fun _ =>
      (ends_asBound (ends_make stop)).close fun _ => ends_lift _

theorem ends_makeAll : ∀ os : List Operand,
    Ends (makeAll v mk os) (firstError v (nodesAll os))
  | [] => ends_pure _
  | o :: os => by
    rw [makeAll, nodesAll, firstError_append]
    exact (ends_make o).bind fun _ => (ends_makeAll os).close fun _ => ends_pure _

end

end Operand

namespace Condition

open Operand (ends_make ends_makeAll)

theorem ends_makeNegated (negated : Bool) (node : φ) :
    Ends (makeNegated mk negated node : ExceptT MeaningError m φ) none := by
  cases negated with
  | true => exact ends_lift _
  | false => exact ends_pure _

theorem ends_makeEqualities (value : ε) (os : List Operand) :
    Ends (makeEqualities v mk value os) (firstError v (Operand.nodesAll os)) := by
  induction os with
  | nil => exact ends_pure _
  | cons o os ih =>
    rw [makeEqualities, Operand.nodesAll, firstError_append]
    exact (ends_make o).bind fun _ => Ends.bind (o := none) (ends_lift _) fun _ =>
      ih.close fun _ => ends_pure _

/-- A call: the name and the number of arguments are looked at before the arguments. -/
theorem ends_call {span : Span} {name : String} {args : List Operand}
    {f : Relation → ExceptT MeaningError m φ}
    (h : ∀ r, args.length = 2 → Ends (f r) (firstError v (Operand.nodesAll args)))
    (h' : ∀ r, args.length ≠ 2 → f r = throw ⟨.wrongArity name "2" args.length, span⟩) :
    Ends (liftExcept (v.relation span name args.length) >>= f)
      (firstError v (nodes (.call span name args))) := by
  rw [nodes, firstError_cons, PhraseNode.violation?, violation?]
  cases v.relation span name args.length with
  | error e =>
    show Ends (throw e >>= f) _
    rw [throw_bind]
    exact ends_throw e
  | ok r =>
    show Ends (pure r >>= f) _
    rw [pure_bind]
    by_cases hl : args.length = 2
    · simp only [if_pos hl, Option.none_or]
      exact h r hl
    · simp only [if_neg hl, Option.some_or]
      rw [h' r hl]
      exact ends_throw _

mutual

theorem ends_make : ∀ c : Condition, Ends (c.make v mk) (firstError v c.nodes)
  | .any _ clauses | .all _ clauses => by
    rw [make, nodes, firstError_cons]
    exact (ends_makeAll clauses).close fun _ => ends_lift _
  | .negation _ clause => by
    rw [make, nodes, firstError_cons]
    exact (ends_make clause).close fun _ => ends_lift _
  | .compare _ _ left right => by
    rw [make, nodes, firstError_cons, firstError_append]
    exact (Operand.ends_make left).bind fun _ => (Operand.ends_make right).close fun _ =>
      ends_lift _
  | .between _ negated value low high => by
    rw [make, nodes, firstError_cons, firstError_append, firstError_append]
    exact (Operand.ends_make value).bind fun _ => (Operand.ends_make low).bind fun _ =>
      (Operand.ends_make high).close fun _ => (ends_lift _).close fun _ =>
        ends_makeNegated negated _
  | .like _ negated value _ _ | .isNull _ negated value => by
    rw [make, nodes, firstError_cons]
    exact (Operand.ends_make value).close fun _ => (ends_lift _).close fun _ =>
      ends_makeNegated negated _
  | .inList _ negated value choices => by
    rw [make, nodes, firstError_cons, firstError_append]
    exact (Operand.ends_make value).bind fun _ => (ends_makeEqualities _ choices).close fun _ =>
      (ends_lift _).close fun _ => ends_makeNegated negated _
  | .call span name args => by
    rw [make]
    refine ends_call (fun r hl => ?_) fun r hl => ?_
    · obtain ⟨left, right, rfl⟩ := List.length_eq_two.1 hl
      rw [Operand.nodesAll, Operand.nodesAll, Operand.nodesAll, List.append_nil, firstError_append]
      exact (Operand.ends_make left).bind fun _ => (Operand.ends_make right).close fun _ =>
        ends_lift _
    · match args, hl with
      | [], _ | [_], _ | _ :: _ :: _ :: _, _ => rfl

theorem ends_makeAll : ∀ cs : List Condition, Ends (makeAll v mk cs) (firstError v (nodesAll cs))
  | [] => ends_pure _
  | c :: cs => by
    rw [makeAll, nodesAll, firstError_append]
    exact (ends_make c).bind fun _ => (ends_makeAll cs).close fun _ => ends_pure _

end

end Condition

end Make

/-! ## What making a phrase comes to -/

section Results

variable {α σ : Type} {nodes : List PhraseNode}

theorem judged_of_outcome {result : Except MeaningError α}
    (hn : firstError v nodes = none → ∃ a, result = .ok a)
    (hs : ∀ e, firstError v nodes = some e → result = .error e) : Judged v nodes result := by
  constructor
  · rw [← firstError_eq_none_iff]
    refine ⟨fun ⟨a, ha⟩ => ?_, hn⟩
    cases he : firstError v nodes with
    | none => rfl
    | some e =>
      rw [hs e he] at ha
      cases ha
  · intro e
    rw [← firstError_eq_some_iff]
    refine ⟨fun he => ?_, hs e⟩
    cases he' : firstError v nodes with
    | none =>
      obtain ⟨a, ha⟩ := hn he'
      rw [ha] at he
      cases he
    | some e' =>
      rw [hs e' he'] at he
      cases he
      rfl

theorem Ends.judged {x : ExceptT MeaningError Id α} (h : Ends x (firstError v nodes)) :
    Judged v nodes x.run.run := by
  refine judged_of_outcome (fun hn => ?_) fun e he => ?_
  · rw [hn] at h
    obtain ⟨a, rfl⟩ := h
    exact ⟨a, rfl⟩
  · rw [he] at h
    obtain ⟨a, rfl⟩ := h
    rfl

/-- There was nothing to find in what ends with a value. -/
theorem Ends.firstError_eq_none {x : ExceptT MeaningError Id α} {a : α}
    (h : Ends x (firstError v nodes)) (ha : x.run.run = .ok a) : firstError v nodes = none :=
  firstError_eq_none_iff.2 (h.judged.ok_iff.1 ⟨a, ha⟩)

/-- Work with a state, which is not looked at by what follows. -/
theorem Ends.judged_state {x : ExceptT MeaningError (StateM σ) α} (h : Ends x (firstError v nodes))
    (s : σ) : Judged v nodes (x.run.run s).run.1 := by
  refine judged_of_outcome (fun hn => ?_) fun e he => ?_
  · rw [hn] at h
    obtain ⟨a, rfl⟩ := h
    exact ⟨(a s).1, rfl⟩
  · rw [he] at h
    obtain ⟨a, rfl⟩ := h
    rfl

end Results

/-- Making the nodes of a phrase succeeds exactly when no node violates a rule, and fails exactly
with the error of the first node in pre-order that does. This is so of filter trees, of every other
kind of node, and of makers that keep a state of their own. -/
theorem judged_make (v : Vocabulary) {ε φ σ : Type} (mk : Maker Id ε φ)
    (mk' : Maker (StateM σ) ε φ) (s : σ) :
    (∀ c : Condition, Judged v c.nodes (c.make v mk).run.run ∧
      Judged v c.nodes ((c.make v mk').run.run s).run.1) ∧
    ∀ o : Operand, Judged v (o.nodes .value) (o.make v mk).run.run ∧
      Judged v (o.nodes .value) ((o.make v mk').run.run s).run.1 :=
  ⟨fun c => ⟨c.ends_make.judged, c.ends_make.judged_state s⟩,
    fun o => ⟨o.ends_make.judged, o.ends_make.judged_state s⟩⟩

end FeatureFilter
