import FeatureFilter.Filter
import FeatureFilter.Function.Signature

/-!
# Makers of nodes

A maker has one operation for each kind of node of a filter. Whatever builds a filter asks a maker
for the nodes, so that the same steps can give a tree, nodes of another kind, or a record of what
was made. `Maker.tree` makes trees; `Maker.numbered` numbers the nodes and keeps a record of them.
-/

namespace FeatureFilter

/-- Makes nodes: `ε` are those that produce values, `φ` those that are true or false. -/
structure Maker (m : Type → Type) (ε φ : Type) where
  literal : Value → m ε
  property : String → m ε
  call : String → List ε → m ε
  arithmetic : ArithmeticOp → ε → ε → m ε
  interval : ε → ε → m ε
  compare : ComparisonOp → ε → ε → m φ
  between : ε → ε → ε → m φ
  like : ε → String → Bool → m φ
  isNull : ε → m φ
  spatial : SpatialOp → ε → ε → m φ
  temporal : TemporalOp → ε → ε → m φ
  all : List φ → m φ
  any : List φ → m φ
  negation : φ → m φ

namespace Maker

/-- Makes the node of a relation between two values. -/
def relate (mk : Maker m ε φ) : Relation → ε → ε → m φ
  | .spatial op => mk.spatial op
  | .temporal op => mk.temporal op

/-- Makes the nodes of filter trees. -/
def tree : Maker Id Expression Filter where
  literal := .literal
  property := .property
  call := .call
  arithmetic := .arithmetic
  interval start stop := .literal (.interval start stop)
  compare := .compare
  between := .between
  like := .like
  isNull := .isNull
  spatial := .spatial
  temporal := .temporal
  all := .all
  any := .any
  negation := .negation

end Maker

/-- A node whose parts are given by their numbers. -/
inductive NodeRecord where
  | literal (v : Value)
  | property (path : String)
  | call (name : String) (args : List Nat)
  | arithmetic (op : ArithmeticOp) (left right : Nat)
  | interval (start stop : Nat)
  | compare (op : ComparisonOp) (left right : Nat)
  | between (value low high : Nat)
  | like (value : Nat) (pattern : String) (matchCase : Bool)
  | isNull (value : Nat)
  | spatial (op : SpatialOp) (left right : Nat)
  | temporal (op : TemporalOp) (left right : Nat)
  | all (clauses : List Nat)
  | any (clauses : List Nat)
  | negation (clause : Nat)

namespace NodeRecord

def parts : NodeRecord → List Nat
  | literal _ | property _ => []
  | call _ args => args
  | arithmetic _ l r | compare _ l r | spatial _ l r | temporal _ l r => [l, r]
  | interval start stop => [start, stop]
  | between value low high => [value, low, high]
  | like value _ _ | isNull value => [value]
  | all clauses | any clauses => clauses
  | negation clause => [clause]

/-- Adds a node to the record and gives its number. Numbers count from one. -/
def add (node : NodeRecord) : StateM (Array NodeRecord) Nat := do
  modify (·.push node)
  return (← get).size

end NodeRecord

/-- Numbers the nodes in the order in which they are made. -/
def Maker.numbered : Maker (StateM (Array NodeRecord)) Nat Nat where
  literal v := (NodeRecord.literal v).add
  property path := (NodeRecord.property path).add
  call name args := (NodeRecord.call name args).add
  arithmetic op left right := (NodeRecord.arithmetic op left right).add
  interval start stop := (NodeRecord.interval start stop).add
  compare op left right := (NodeRecord.compare op left right).add
  between value low high := (NodeRecord.between value low high).add
  like value pattern matchCase := (NodeRecord.like value pattern matchCase).add
  isNull value := (NodeRecord.isNull value).add
  spatial op left right := (NodeRecord.spatial op left right).add
  temporal op left right := (NodeRecord.temporal op left right).add
  all clauses := (NodeRecord.all clauses).add
  any clauses := (NodeRecord.any clauses).add
  negation clause := (NodeRecord.negation clause).add

end FeatureFilter
