import FeatureFilter.Dialect
import FeatureFilter.Filter.Maker
import FeatureFilter.Function.Catalog
import FeatureFilter.Phrase

/-!
# The meaning of phrases

Builds the nodes of a filter from its phrases, looking names up in a catalog on the way. Parts are
built from left to right, each before the node that holds it, and the first phrase without a meaning
ends the work. An `IN` list becomes an `any` of equalities that share one left side, and `NOT`
inside a predicate becomes a negation of its own.
-/

namespace FeatureFilter

inductive MeaningProblem where
  | functionNotFound (name : String)
  | wrongArity (name expected : String) (found : Nat)
  | predicateAsValue (name : String)
  | notAPredicate (name : String)
  | sridPrefix (srid : Int64)
  | invalidBound (found : String)
  deriving DecidableEq, Repr

def MeaningProblem.message : MeaningProblem → String
  | functionNotFound name => "function not found: " ++ name
  | wrongArity name expected found =>
    "function " ++ name ++ " expects " ++ expected ++ " argument(s), found " ++ toString found
  | predicateAsValue name => name ++ " is a predicate and cannot be used as a value"
  | notAPredicate name => name ++ " does not return a boolean; compare its result instead"
  | sridPrefix srid =>
    "EWKT prefix SRID=" ++ toString srid.toInt ++
      " is not supported; geometry literals carry no CRS"
  | invalidBound found =>
    "invalid interval bound: expected a date, timestamp, property, function or '..', found " ++
      found

/-- A phrase without a meaning. -/
structure MeaningError where
  problem : MeaningProblem
  span : Span
  deriving DecidableEq, Repr

/-- The names that have a meaning. -/
structure Vocabulary where
  catalog : Catalog
  /-- Functions that the catalog does not hold may be called for their value. -/
  allowUnknown : Bool

namespace Vocabulary

/-- Fails unless a function takes so many arguments. -/
def checkCount (s : Signature) (span : Span) (name : String) (count : Nat) :
    Except MeaningError Unit :=
  if s.accepts count then .ok () else .error ⟨.wrongArity name s.arity count, span⟩

/-- Fails unless a function can be called for its value. -/
def checkValueCall (v : Vocabulary) (span : Span) (name : String) (count : Nat) :
    Except MeaningError Unit :=
  match v.catalog.lookup name with
  | some s =>
    if s.kind.isPredicate then .error ⟨.predicateAsValue name, span⟩
    else checkCount s span name count
  | none =>
    if v.allowUnknown && !isPredicateName name then .ok ()
    else .error ⟨.functionNotFound name, span⟩

/-- The relation that a function called as a predicate stands for. -/
def relation (v : Vocabulary) (span : Span) (name : String) (count : Nat) :
    Except MeaningError Relation :=
  match v.catalog.lookup name with
  | none => .error ⟨.functionNotFound name, span⟩
  | some s =>
    match s.kind with
    | .generic => .error ⟨.notAPredicate name, span⟩
    | .predicate r => (checkCount s span name count).map fun _ => r

end Vocabulary

variable {m : Type → Type} {ε φ : Type} [Monad m]

/-- A bound of an interval, `made` being the node of its phrase: an open bound has a node of its
own, and only some other phrases can stand here. -/
def Operand.asBound (mk : Maker m ε φ) (made : ExceptT MeaningError m ε) :
    Operand → ExceptT MeaningError m ε
  | .openBound _ => mk.literal (.string openMarker)
  | .literal _ (.date _) | .literal _ (.timestamp _) | .property _ _ | .call _ _ _ => made
  | o => throw ⟨.invalidBound o.describe, o.span⟩

mutual

def Operand.make (v : Vocabulary) (mk : Maker m ε φ) : Operand → ExceptT MeaningError m ε
  | .literal _ value => mk.literal value.toValue
  | .property _ name => mk.property name.path
  | .call span name args => do
    liftExcept (v.checkValueCall span name args.length)
    let nodes ← Operand.makeAll v mk args
    mk.call name nodes
  | .arithmetic _ op left right => do
    let l ← left.make v mk
    let r ← right.make v mk
    mk.arithmetic op l r
  | .interval _ start stop => do
    let a ← start.asBound mk (start.make v mk)
    let b ← stop.asBound mk (stop.make v mk)
    mk.interval a b
  | .openBound span => throw ⟨.invalidBound "'..' outside INTERVAL", span⟩
  | .geometry _ g none => mk.literal (.geometry g)
  | .geometry span _ (some srid) => throw ⟨.sridPrefix srid, span⟩

def Operand.makeAll (v : Vocabulary) (mk : Maker m ε φ) :
    List Operand → ExceptT MeaningError m (List ε)
  | [] => return []
  | o :: os => do
    let node ← o.make v mk
    return node :: (← Operand.makeAll v mk os)

end

namespace Condition

def makeNegated (mk : Maker m ε φ) (negated : Bool) (node : φ) : ExceptT MeaningError m φ :=
  if negated then mk.negation node else return node

def makeEqualities (v : Vocabulary) (mk : Maker m ε φ) (value : ε) :
    List Operand → ExceptT MeaningError m (List φ)
  | [] => return []
  | o :: os => do
    let choice ← o.make v mk
    let node ← mk.compare .eq value choice
    return node :: (← makeEqualities v mk value os)

mutual

/-- Makes the node of a condition. -/
def make (v : Vocabulary) (mk : Maker m ε φ) : Condition → ExceptT MeaningError m φ
  | .any _ clauses => do
    let nodes ← makeAll v mk clauses
    mk.any nodes
  | .all _ clauses => do
    let nodes ← makeAll v mk clauses
    mk.all nodes
  | .negation _ clause => do
    let node ← clause.make v mk
    mk.negation node
  | .compare _ op left right => do
    let l ← left.make v mk
    let r ← right.make v mk
    mk.compare op l r
  | .between _ negated value low high => do
    let x ← value.make v mk
    let l ← low.make v mk
    let h ← high.make v mk
    makeNegated mk negated (← mk.between x l h)
  | .like _ negated value pattern matchCase => do
    let x ← value.make v mk
    makeNegated mk negated (← mk.like x pattern matchCase)
  | .isNull _ negated value => do
    let x ← value.make v mk
    makeNegated mk negated (← mk.isNull x)
  | .inList _ negated value choices => do
    let x ← value.make v mk
    let nodes ← makeEqualities v mk x choices
    makeNegated mk negated (← mk.any nodes)
  | .call span name args => do
    let r ← liftExcept (v.relation span name args.length)
    match args with
    | [left, right] =>
      let a ← left.make v mk
      let b ← right.make v mk
      mk.relate r a b
    | _ => throw ⟨.wrongArity name "2" args.length, span⟩

def makeAll (v : Vocabulary) (mk : Maker m ε φ) :
    List Condition → ExceptT MeaningError m (List φ)
  | [] => return []
  | c :: cs => do
    let node ← c.make v mk
    return node :: (← makeAll v mk cs)

end

end Condition

end FeatureFilter
