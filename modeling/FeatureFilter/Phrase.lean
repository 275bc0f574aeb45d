import FeatureFilter.Filter
import FeatureFilter.Text.Quoted
import FeatureFilter.Text.Span

/-!
# Phrases

A filter as it is written, before names are looked up: operands, which produce values, and
conditions, which are true or false. Every phrase knows the part of the text it was read from.
-/

namespace FeatureFilter

/-- A literal other than an interval or a geometry. -/
inductive Literal where
  | integer (n : Int64)
  | double (x : Binary64)
  | string (s : String)
  | boolean (b : Bool)
  | date (d : Date)
  | timestamp (t : Timestamp)
  | color (c : Color)
  deriving DecidableEq

namespace Literal

/-- The number with the opposite sign; other literals stay as they are. -/
def negated : Literal → Literal
  | integer n => .integer (-n)
  | double x => .double x.neg
  | other => other

def toValue : Literal → Value
  | integer n => .long n
  | double x => .double x
  | string s => .string s
  | boolean b => .boolean b
  | date d => .date d
  | timestamp t => .timestamp t
  | color c => .color c

/-- The literal for display; offsets of timestamps are written in figures. -/
def text : Literal → String
  | integer n => toString n.toInt
  | double x => Layout.literal.text x
  | string s => Quoted.writeText '\'' s
  | boolean b => if b then "TRUE" else "FALSE"
  | date d => "DATE('" ++ String.ofList d.text ++ "')"
  | timestamp t => "TIMESTAMP('" ++ String.ofList t.numericText ++ "')"
  | color c => "'" ++ c.text ++ "'"

end Literal

/-- A property name. Points in a word without quotes separate segments; a name in quotes is one
segment. -/
structure PropertyName where
  segments : List String
  quoted : Bool
  span : Span
  deriving DecidableEq

namespace PropertyName

def ofWord (word : String) (span : Span) : PropertyName :=
  ⟨(splitAtChar '.' word.toList).map String.ofList, false, span⟩

def ofQuoted (name : String) (span : Span) : PropertyName := ⟨[name], true, span⟩

/-- The path of the property: its segments separated by `/`. -/
def path (p : PropertyName) : String := joined "/" p.segments

def text (p : PropertyName) : String :=
  if p.quoted then Quoted.writeText '"' p.path else joined "." p.segments

end PropertyName

/-- A phrase that produces a value. -/
inductive Operand where
  | literal (span : Span) (value : Literal)
  | property (span : Span) (name : PropertyName)
  | call (span : Span) (name : String) (args : List Operand)
  | arithmetic (span : Span) (op : ArithmeticOp) (left right : Operand)
  | interval (span : Span) (start stop : Operand)
  /-- The bound `'..'` of an interval. -/
  | openBound (span : Span)
  /-- A geometry, with the number of its reference system if one is written. -/
  | geometry (span : Span) (g : Geometry) (srid : Option Int64)

namespace Operand

def span : Operand → Span
  | literal s _ | property s _ | call s _ _ | arithmetic s _ _ _ | interval s _ _ | openBound s
  | geometry s _ _ => s

/-- The same phrase, read from another part of the text. -/
def withSpan (s : Span) : Operand → Operand
  | literal _ value => literal s value
  | property _ name => property s name
  | call _ name args => call s name args
  | arithmetic _ op left right => arithmetic s op left right
  | interval _ start stop => interval s start stop
  | openBound _ => openBound s
  | geometry _ g srid => geometry s g srid

def combine (left : Operand) (op : ArithmeticOp) (right : Operand) : Operand :=
  arithmetic (left.span.through right.span) op left right

def describe : Operand → String
  | literal _ (.integer _) | literal _ (.double _) => "number"
  | literal _ (.string _) => "string"
  | literal _ (.boolean _) => "boolean"
  | literal _ (.date _) => "date"
  | literal _ (.timestamp _) => "timestamp"
  | literal _ (.color _) => "color"
  | property _ _ => "property"
  | call _ _ _ => "function call"
  | arithmetic _ _ _ _ => "arithmetic expression"
  | interval _ _ _ => "interval"
  | openBound _ => "open bound"
  | geometry _ _ _ => "geometry"

end Operand

/-- A phrase that is true or false. -/
inductive Condition where
  | any (span : Span) (clauses : List Condition)
  | all (span : Span) (clauses : List Condition)
  | negation (span : Span) (clause : Condition)
  | compare (span : Span) (op : ComparisonOp) (left right : Operand)
  | between (span : Span) (negated : Bool) (value low high : Operand)
  | like (span : Span) (negated : Bool) (value : Operand) (pattern : String) (matchCase : Bool)
  | isNull (span : Span) (negated : Bool) (value : Operand)
  | inList (span : Span) (negated : Bool) (value : Operand) (choices : List Operand)
  | call (span : Span) (name : String) (args : List Operand)

def Condition.span : Condition → Span
  | any s _ | all s _ | negation s _ | compare s _ _ _ | between s _ _ _ _ | like s _ _ _ _
  | isNull s _ _ | inList s _ _ _ | call s _ _ => s

end FeatureFilter
