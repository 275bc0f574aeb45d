import FeatureFilter.Phrase

/-!
# Reading literals

Turns the text of a number, a date, a timestamp or a colour into a literal.
-/

namespace FeatureFilter

inductive LiteralError where
  | invalidNumber (text : String)
  | invalidDate (text : String)
  | invalidTimestamp (text : String)
  | missingOffset (text : String)
  deriving DecidableEq, Repr

def LiteralError.message : LiteralError → String
  | invalidNumber text => "invalid number '" ++ text ++ "'"
  | invalidDate text => "invalid date '" ++ text ++ "', expected YYYY-MM-DD"
  | invalidTimestamp text => "invalid timestamp '" ++ text ++ "', expected RFC 3339"
  | missingOffset text =>
    "timestamp '" ++ text ++ "' has no UTC offset; append 'Z' or an offset such as '+01:00'"

namespace Literal

/-- A number. Whole numbers are integers as long as they fit into 64 bits; with a point or an
exponent letter a number is always a double. -/
def readNumber (text : String) : Except LiteralError Literal :=
  let cs := text.toList
  let asDouble : Except LiteralError Literal :=
    match Binary64.read? cs with
    | some x => .ok (.double x)
    | none => .error (.invalidNumber text)
  if cs.any fun c => c = '.' || c = 'e' || c = 'E' then asDouble
  else match readInt64? cs with
    | some n => .ok (.integer n)
    | none => asDouble

def readDate (text : String) : Except LiteralError Date :=
  match Date.read? text.toList with
  | some d => .ok d
  | none => .error (.invalidDate text)

/-- A timestamp in the form `YYYY-MM-DDTHH:MM:SS`, with an optional fraction and an offset. Where
`naiveAsUtc` is set the offset may be missing. -/
def readTimestamp (naiveAsUtc : Bool) (text : String) : Except LiteralError Timestamp :=
  match Timestamp.read text.toList with
  | .instant t => .ok t
  | .naive d t =>
    if naiveAsUtc then .ok (.ofUtc d t) else .error (.missingOffset text)
  | .malformed => .error (.invalidTimestamp text)

end Literal

end FeatureFilter
