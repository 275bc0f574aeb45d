import FeatureFilter.Filter.Operators
import FeatureFilter.Text.Ranges

/-!
# Signatures

What is known of a function: its name, what it gives, and how many arguments it takes.
-/

namespace FeatureFilter

inductive Relation where
  | spatial (op : SpatialOp)
  | temporal (op : TemporalOp)
  deriving DecidableEq, Repr

inductive FunctionKind where
  /-- A value. -/
  | generic
  /-- True or false. -/
  | predicate (r : Relation)
  deriving DecidableEq, Repr

def FunctionKind.isPredicate : FunctionKind → Bool
  | generic => false
  | predicate _ => true

/-- What is known of a function. -/
structure Signature where
  name : String
  kind : FunctionKind
  minArgs : Nat
  /-- Absent when any number of arguments will do. -/
  maxArgs : Option Nat
  deriving DecidableEq, Repr

inductive SignatureDefect where
  | blankName
  | boundsCrossed
  | refusesPair
  deriving DecidableEq, Repr

/-- A signature that makes no sense. -/
structure SignatureError where
  name : String
  defect : SignatureDefect
  deriving DecidableEq, Repr

def SignatureDefect.message : SignatureDefect → String
  | blankName => "empty function name"
  | boundsCrossed => "max_args is smaller than min_args"
  | refusesPair => "spatial and temporal predicates take two arguments"

def SignatureError.message (e : SignatureError) : String :=
  "invalid signature for function " ++ e.name ++ ": " ++ e.defect.message

namespace Signature

/-- A function that gives a value and takes exactly `count` arguments. -/
def fixed (name : String) (count : Nat) : Signature := ⟨name, .generic, count, some count⟩

/-- A function that gives a value and takes `least` arguments or more. -/
def variadic (name : String) (least : Nat) : Signature := ⟨name, .generic, least, none⟩

def spatial (op : SpatialOp) : Signature :=
  ⟨op.functionName, .predicate (.spatial op), 2, some 2⟩

def temporal (op : TemporalOp) : Signature :=
  ⟨op.functionName, .predicate (.temporal op), 2, some 2⟩

def accepts (s : Signature) (count : Nat) : Bool :=
  s.minArgs ≤ count && s.maxArgs.all (count ≤ ·)

/-- How many arguments the function takes, in words. -/
def arity (s : Signature) : String :=
  match s.maxArgs with
  | none => "at least " ++ toString s.minArgs
  | some most =>
    if most = s.minArgs then toString most else toString s.minArgs ++ " to " ++ toString most

def defect? (s : Signature) : Option SignatureDefect :=
  if (trim s.name.toList).isEmpty then some .blankName
  else if s.maxArgs.any (· < s.minArgs) then some .boundsCrossed
  else if s.kind.isPredicate && !s.accepts 2 then some .refusesPair
  else none

def validate (s : Signature) : Except SignatureError Unit :=
  match s.defect? with
  | some d => .error ⟨s.name, d⟩
  | none => .ok ()

end Signature

end FeatureFilter
