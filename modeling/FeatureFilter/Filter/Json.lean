import FeatureFilter.Filter
import FeatureFilter.Geometry.Json

/-!
# The JSON form of filter trees

A node is tagged with its kind. Most kinds have a record behind their tag, whose fields may stand in
any order; reading passes over fields of other names. Operators are written by their tags alone.
-/

namespace FeatureFilter

/-! ## Operators -/

namespace ArithmeticOp

def all : List ArithmeticOp := [add, sub, mul, div]

def tag : ArithmeticOp → String
  | add => "Add"
  | sub => "Sub"
  | mul => "Mul"
  | div => "Div"

end ArithmeticOp

namespace ComparisonOp

def all : List ComparisonOp := [eq, ne, lt, le, gt, ge]

def tag : ComparisonOp → String
  | eq => "Eq"
  | ne => "Ne"
  | lt => "Lt"
  | le => "Le"
  | gt => "Gt"
  | ge => "Ge"

end ComparisonOp

def SpatialOp.tag : SpatialOp → String
  | intersects => "Intersects"
  | disjoint => "Disjoint"
  | within => "Within"
  | contains => "Contains"
  | touches => "Touches"
  | crosses => "Crosses"
  | overlaps => "Overlaps"
  | equals => "Equals"

def TemporalOp.tag : TemporalOp → String
  | before => "Before"
  | after => "After"
  | during => "During"
  | equals => "TEquals"

/-! ## Writing -/

mutual

def Value.toJson : Value → Json
  | .long n => .tagged "Long" (.integer n.toInt)
  | .double x => .tagged "Double" x.toJson
  | .string s => .tagged "String" (.string s)
  | .boolean b => .tagged "Boolean" (.boolean b)
  | .date d => .tagged "Date" (.string (String.ofList d.text))
  | .timestamp t => .tagged "Timestamp" (.string (String.ofList t.text))
  | .interval start stop =>
    .tagged "Interval" (.object [("start", start.toJson), ("end", stop.toJson)])
  | .geometry g => .tagged "Geometry" g.toJson
  | .color c => .tagged "Color" (.integer c.rgb.toNat)

def Expression.toJson : Expression → Json
  | .literal v => .tagged "Literal" v.toJson
  | .property path => .tagged "PropertyName" (.string path)
  | .call name args =>
    .tagged "Function" (.object
      [("name", .string name), ("args", .array (Expression.toJsonAll args))])
  | .arithmetic op left right =>
    .tagged "Arithmetic"
      (.object [("op", .string op.tag), ("left", left.toJson), ("right", right.toJson)])

def Expression.toJsonAll : List Expression → List Json
  | [] => []
  | e :: es => e.toJson :: Expression.toJsonAll es

end

def Interval.toJson (i : Interval) : Json :=
  .object [("start", i.start.toJson), ("end", i.stop.toJson)]

namespace Filter

mutual

def toJson : Filter → Json
  | compare op left right =>
    .tagged "Comparison"
      (.object [("op", .string op.tag), ("left", left.toJson), ("right", right.toJson)])
  | between value low high =>
    .tagged "Between"
      (.object [("value", value.toJson), ("low", low.toJson), ("high", high.toJson)])
  | like value pattern matchCase =>
    .tagged "Like"
      (.object [("value", value.toJson), ("pattern", .string pattern),
        ("match_case", .boolean matchCase)])
  | isNull value => .tagged "IsNull" (.object [("value", value.toJson)])
  | spatial op left right =>
    .tagged "Spatial"
      (.object [("op", .string op.tag), ("geom1", left.toJson), ("geom2", right.toJson)])
  | temporal op left right =>
    .tagged "Temporal"
      (.object [("op", .string op.tag), ("instant", left.toJson), ("other", right.toJson)])
  | all clauses => .tagged "And" (.array (toJsonAll clauses))
  | any clauses => .tagged "Or" (.array (toJsonAll clauses))
  | negation clause => .tagged "Not" clause.toJson

def toJsonAll : List Filter → List Json
  | [] => []
  | f :: fs => f.toJson :: toJsonAll fs

end

end Filter

/-! ## Reading -/

/-- The interval of a record whose bounds are read by `bound`. -/
def Interval.ofJsonOver (bound : Json → Option Expression) (j : Json) : Option Interval :=
  match j.record? ["start", "end"] with
  | some [some start, some stop] => do return ⟨← bound start, ← bound stop⟩
  | _ => none

/-- A value whose expressions, if it is an interval, are read by `bound`. -/
def Value.ofJsonOver (bound : Json → Option Expression) (j : Json) : Option Value :=
  match j.tagged? with
  | some ("Long", p) =>
    (p.integerIn? (-0x8000000000000000) 0x7FFFFFFFFFFFFFFF).map fun n => .long (Int64.ofInt n)
  | some ("Double", p) => p.number?.map .double
  | some ("String", p) => p.string?.map .string
  | some ("Boolean", p) => p.boolean?.map .boolean
  | some ("Date", p) => (p.string?.bind fun s => Date.readLenient? s.toList).map .date
  | some ("Timestamp", p) =>
    (p.string?.bind fun s => Timestamp.readLenient? s.toList).map .timestamp
  | some ("Interval", p) => (Interval.ofJsonOver bound p).map fun i => .interval i.start i.stop
  | some ("Geometry", p) => (Geometry.ofJson? p).map .geometry
  | some ("Color", p) => (p.integerIn? 0 0xFFFFFFFF).map fun n => .color ⟨n.toNat.toUInt32⟩
  | _ => none

namespace Expression

def ofJsonOver (part : Json → Option Expression) (j : Json) : Option Expression :=
  match j.tagged? with
  | some ("Literal", p) => (Value.ofJsonOver part p).map literal
  | some ("PropertyName", p) => p.string?.map property
  | some ("Function", p) =>
    match p.fields? ["name", "args"] with
    | some [some name, some args] => do return call (← name.string?) (← args.list? part)
    | _ => none
  | some ("Arithmetic", p) =>
    match p.fields? ["op", "left", "right"] with
    | some [some op, some left, some right] => do
      return arithmetic (← op.choice? ArithmeticOp.all ArithmeticOp.tag) (← part left)
        (← part right)
    | _ => none
  | _ => none

/-- An expression whose parts stand at most `n` deep inside each other. -/
def ofJsonWithin : Nat → Json → Option Expression
  | 0 => fun _ => none
  | n + 1 => ofJsonOver (ofJsonWithin n)

def ofJson? (j : Json) : Option Expression := ofJsonWithin j.depth j

end Expression

def Value.ofJson? (j : Json) : Option Value := Value.ofJsonOver Expression.ofJson? j

def Interval.ofJson? (j : Json) : Option Interval := Interval.ofJsonOver Expression.ofJson? j

namespace Filter

def ofJsonOver (clause : Json → Option Filter) (j : Json) : Option Filter :=
  let part := Expression.ofJson?
  match j.tagged? with
  | some ("Comparison", p) =>
    match p.fields? ["op", "left", "right"] with
    | some [some op, some left, some right] => do
      return compare (← op.choice? ComparisonOp.all ComparisonOp.tag) (← part left) (← part right)
    | _ => none
  | some ("Between", p) =>
    match p.fields? ["value", "low", "high"] with
    | some [some value, some low, some high] => do
      return between (← part value) (← part low) (← part high)
    | _ => none
  | some ("Like", p) =>
    match p.fields? ["value", "pattern", "match_case"] with
    | some [some value, some pattern, some matchCase] => do
      return like (← part value) (← pattern.string?) (← matchCase.boolean?)
    | _ => none
  | some ("IsNull", p) =>
    match p.fields? ["value"] with
    | some [some value] => (part value).map isNull
    | _ => none
  | some ("Spatial", p) =>
    match p.fields? ["op", "geom1", "geom2"] with
    | some [some op, some left, some right] => do
      return spatial (← op.choice? SpatialOp.all SpatialOp.tag) (← part left) (← part right)
    | _ => none
  | some ("Temporal", p) =>
    match p.fields? ["op", "instant", "other"] with
    | some [some op, some left, some right] => do
      return temporal (← op.choice? TemporalOp.all TemporalOp.tag) (← part left) (← part right)
    | _ => none
  | some ("And", p) => (p.list? clause).map all
  | some ("Or", p) => (p.list? clause).map any
  | some ("Not", p) => (clause p).map negation
  | _ => none

/-- A filter whose clauses stand at most `n` deep inside each other. -/
def ofJsonWithin : Nat → Json → Option Filter
  | 0 => fun _ => none
  | n + 1 => ofJsonOver (ofJsonWithin n)

def ofJson? (j : Json) : Option Filter := ofJsonWithin j.depth j

end Filter

end FeatureFilter
