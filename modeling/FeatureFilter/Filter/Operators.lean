import FeatureFilter.Text.Caseless

/-!
# Operators

The operators of filters and expressions, with the signs and function names that write them.
-/

namespace FeatureFilter

inductive ArithmeticOp where
  | add
  | sub
  | mul
  | div
  deriving DecidableEq, Repr

namespace ArithmeticOp

/-- How strongly an operator binds. -/
def precedence : ArithmeticOp → Nat
  | add | sub => 1
  | mul | div => 2

def symbol : ArithmeticOp → String
  | add => "+"
  | sub => "-"
  | mul => "*"
  | div => "/"

end ArithmeticOp

inductive ComparisonOp where
  | eq
  | ne
  | lt
  | le
  | gt
  | ge
  deriving DecidableEq, Repr

def ComparisonOp.symbol : ComparisonOp → String
  | eq => "="
  | ne => "<>"
  | lt => "<"
  | le => "<="
  | gt => ">"
  | ge => ">="

inductive SpatialOp where
  | intersects
  | disjoint
  | within
  | contains
  | touches
  | crosses
  | overlaps
  | equals
  deriving DecidableEq, Repr

namespace SpatialOp

def all : List SpatialOp :=
  [intersects, disjoint, within, contains, touches, crosses, overlaps, equals]

def functionName : SpatialOp → String
  | intersects => "S_INTERSECTS"
  | disjoint => "S_DISJOINT"
  | within => "S_WITHIN"
  | contains => "S_CONTAINS"
  | touches => "S_TOUCHES"
  | crosses => "S_CROSSES"
  | overlaps => "S_OVERLAPS"
  | equals => "S_EQUALS"

def ofFunctionName? (name : String) : Option SpatialOp :=
  all.find? fun op => sameWord op.functionName name

end SpatialOp

inductive TemporalOp where
  | before
  | after
  | during
  | equals
  deriving DecidableEq, Repr

namespace TemporalOp

def all : List TemporalOp := [before, after, during, equals]

def functionName : TemporalOp → String
  | before => "T_BEFORE"
  | after => "T_AFTER"
  | during => "T_DURING"
  | equals => "T_EQUALS"

def ofFunctionName? (name : String) : Option TemporalOp :=
  all.find? fun op => sameWord op.functionName name

end TemporalOp

end FeatureFilter
