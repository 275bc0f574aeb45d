import FeatureFilter.Color
import FeatureFilter.Json
import FeatureFilter.Number.Shortest
import FeatureFilter.Text.Slice

/-!
# The text of JSON documents

Writes JSON values without blanks. Numbers that are not finite and parts that stand for no value
have no text of their own and are written as null.
-/

namespace FeatureFilter

namespace Json

/-- A character inside a string: quotes, backslashes and control characters are escaped. -/
def escape (c : Char) : List Char :=
  if c = '"' then ['\\', '"']
  else if c = '\\' then ['\\', '\\']
  else if c.toNat < 0x20 then '\\' :: 'u' :: hexDigits id 4 c.toNat
  else [c]

def stringText (s : String) : String :=
  String.ofList ('"' :: (s.toList.flatMap escape ++ ['"']))

mutual

def text : Json → String
  | null => "null"
  | boolean b => if b then "true" else "false"
  | integer n => toString n
  | real x => if x.isFinite then Layout.literal.text x else "null"
  | string s => stringText s
  | array items => "[" ++ joined "," (textAll items) ++ "]"
  | object fields => "\x7b" ++ joined "," (fieldTexts fields) ++ "\x7d"
  | unreadable => "null"

def textAll : List Json → List String
  | [] => []
  | j :: js => j.text :: textAll js

def fieldTexts : List (String × Json) → List String
  | [] => []
  | (name, j) :: fields => (stringText name ++ ":" ++ j.text) :: fieldTexts fields

end

end Json

end FeatureFilter
