import FeatureFilter.Calendar.Timestamp
import FeatureFilter.Color
import FeatureFilter.Filter.Operators
import FeatureFilter.Geometry

/-!
# Filter trees

The result of compiling a filter: values, expressions over properties, and boolean filters. An
`IN` list has no node of its own: it is an `any` of equalities that share their left side.
-/

namespace FeatureFilter

mutual

inductive Value where
  | long (n : Int64)
  | double (x : Binary64)
  | string (s : String)
  | boolean (b : Bool)
  | date (d : Date)
  | timestamp (t : Timestamp)
  | interval (start stop : Expression)
  | geometry (g : Geometry)
  | color (c : Color)

/-- A node that produces a value. The segments of a property path are separated by `/`. -/
inductive Expression where
  | literal (v : Value)
  | property (path : String)
  | call (name : String) (args : List Expression)
  | arithmetic (op : ArithmeticOp) (left right : Expression)

end

/-- A time interval. Each bound is a date, a timestamp, a property, a call, or open. -/
structure Interval where
  start : Expression
  stop : Expression

inductive Filter where
  | compare (op : ComparisonOp) (left right : Expression)
  | between (value low high : Expression)
  | like (value : Expression) (pattern : String) (matchCase : Bool)
  | isNull (value : Expression)
  | spatial (op : SpatialOp) (left right : Expression)
  | temporal (op : TemporalOp) (left right : Expression)
  | all (clauses : List Filter)
  | any (clauses : List Filter)
  | negation (clause : Filter)

/-- The string that stands for an open interval bound. -/
def openMarker : String := ".."

namespace Value

def typeName : Value → String
  | long _ => "long"
  | double _ => "double"
  | string _ => "string"
  | boolean _ => "boolean"
  | date _ => "date"
  | timestamp _ => "timestamp"
  | interval _ _ => "interval"
  | geometry _ => "geometry"
  | color _ => "color"

def asDouble? : Value → Option Binary64
  | long n => some (.ofInt n.toInt)
  | double x => some x
  | _ => none

def asString? : Value → Option String
  | string s => some s
  | _ => none

/-- The instant of a temporal value; a date stands for its midnight in UTC. -/
def asInstant? : Value → Option Timestamp
  | date d => some (.ofUtc d .midnight)
  | timestamp t => some t
  | _ => none

def isTemporal : Value → Bool
  | date _ | timestamp _ => true
  | _ => false

def isOpenMarker : Value → Bool
  | string s => s == openMarker
  | _ => false

end Value

namespace Expression

def asLiteral? : Expression → Option Value
  | literal v => some v
  | _ => none

def asProperty? : Expression → Option String
  | property path => some path
  | _ => none

def openBound : Expression := .literal (.string openMarker)

def isOpenBound : Expression → Bool
  | literal v => v.isOpenMarker
  | _ => false

end Expression

/-- Whether the filter combines other filters. -/
def Filter.isLogical : Filter → Bool
  | all _ | any _ | negation _ => true
  | _ => false

/-! ## Equality

Trees are compared node by node. Numbers are compared as numbers, so that the zeros are equal and
not-a-number differs from itself, and timestamps as instants. -/

mutual

def Value.beq : Value → Value → Bool
  | .long a, .long b => a == b
  | .double a, .double b => a == b
  | .string a, .string b => a == b
  | .boolean a, .boolean b => a == b
  | .date a, .date b => a == b
  | .timestamp a, .timestamp b => a.sameInstant b
  | .interval a b, .interval c d => Expression.beq a c && Expression.beq b d
  | .geometry a, .geometry b => a == b
  | .color a, .color b => a == b
  | _, _ => false

def Expression.beq : Expression → Expression → Bool
  | .literal a, .literal b => Value.beq a b
  | .property a, .property b => a == b
  | .call f as, .call g bs => f == g && Expression.beqAll as bs
  | .arithmetic o a b, .arithmetic p c d => o == p && Expression.beq a c && Expression.beq b d
  | _, _ => false

def Expression.beqAll : List Expression → List Expression → Bool
  | [], [] => true
  | a :: as, b :: bs => Expression.beq a b && Expression.beqAll as bs
  | _, _ => false

end

instance : BEq Value := ⟨Value.beq⟩

instance : BEq Expression := ⟨Expression.beq⟩

mutual

def Filter.beq : Filter → Filter → Bool
  | .compare o a b, .compare p c d => o == p && a == c && b == d
  | .between a b c, .between d e f => a == d && b == e && c == f
  | .like a p m, .like b q n => a == b && p == q && m == n
  | .isNull a, .isNull b => a == b
  | .spatial o a b, .spatial p c d => o == p && a == c && b == d
  | .temporal o a b, .temporal p c d => o == p && a == c && b == d
  | .all as, .all bs => Filter.beqAll as bs
  | .any as, .any bs => Filter.beqAll as bs
  | .negation a, .negation b => Filter.beq a b
  | _, _ => false

def Filter.beqAll : List Filter → List Filter → Bool
  | [], [] => true
  | a :: as, b :: bs => Filter.beq a b && Filter.beqAll as bs
  | _, _ => false

end

instance : BEq Filter := ⟨Filter.beq⟩

end FeatureFilter
