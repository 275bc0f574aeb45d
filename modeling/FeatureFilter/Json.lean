import FeatureFilter.Number.Binary64

/-!
# JSON documents

The values of JSON. An object keeps its fields in the order in which they are written, also those of
one name. Whole numbers and other numbers are told apart. A document can hold parts that are well
formed but stand for no value; they can be passed over, and nothing can be read from them.
-/

namespace FeatureFilter

inductive Json where
  | null
  | boolean (b : Bool)
  | integer (n : Int)
  | real (x : Binary64)
  | string (s : String)
  | array (items : List Json)
  | object (fields : List (String × Json))
  /-- A string that is no text, or an object with such a string for a name. -/
  | unreadable

namespace Json

mutual

/-- How many arrays and objects stand inside each other, the value itself counted as one. -/
def depth : Json → Nat
  | array items => depthAll items + 1
  | object fields => depthFields fields + 1
  | _ => 1

def depthAll : List Json → Nat
  | [] => 0
  | j :: js => max j.depth (depthAll js)

def depthFields : List (String × Json) → Nat
  | [] => 0
  | (_, j) :: fields => max j.depth (depthFields fields)

end

def ofOption (write : α → Json) : Option α → Json
  | some a => write a
  | none => null

/-! ## Reading values -/

def boolean? : Json → Option Bool
  | boolean b => some b
  | _ => none

def string? : Json → Option String
  | string s => some s
  | _ => none

def integerIn? (least most : Int) : Json → Option Int
  | integer n => if least ≤ n ∧ n ≤ most then some n else none
  | _ => none

/-- A whole number that is not negative and fits into 64 bits. -/
def natural? (j : Json) : Option Nat := (j.integerIn? 0 0xFFFFFFFFFFFFFFFF).map Int.toNat

/-- A number; a whole number stands for the nearest one of the format. -/
def number? : Json → Option Binary64
  | integer n => some (.ofInt n)
  | real x => some x
  | _ => none

def list? (read : Json → Option α) : Json → Option (List α)
  | array items => items.mapM read
  | _ => none

def nullable? (read : Json → Option α) : Json → Option (Option α)
  | null => some none
  | j => (read j).map some

/-- The value of a field, if the object has it. A field that is given twice has no reading. -/
def field? (fields : List (String × Json)) (name : String) : Option (Option Json) :=
  match fields.filter fun (key, _) => key == name with
  | [] => some none
  | [(_, j)] => some (some j)
  | _ => none

/-- The values of the named fields of an object, in the order of the names. Fields of other names
are passed over. -/
def fields? (names : List String) : Json → Option (List (Option Json))
  | object fields => names.mapM (field? fields)
  | _ => none

/-- The values of the fields of a record. Besides an object, an array can hold them in the order of
the names, the last ones left out. -/
def record? (names : List String) : Json → Option (List (Option Json))
  | array items =>
    if items.length ≤ names.length then
      some (items.map some ++ List.replicate (names.length - items.length) none)
    else none
  | j => j.fields? names

/-- A value with a tag in front: an object of one field. -/
def tagged (tag : String) (payload : Json) : Json := object [(tag, payload)]

def tagged? : Json → Option (String × Json)
  | object [(tag, payload)] => some (tag, payload)
  | _ => none

/-- One of several choices: its tag as a string, or in front of null. -/
def choice? (choices : List α) (tag : α → String) (j : Json) : Option α :=
  let name? := match j with
    | string s => some s
    | object [(s, null)] => some s
    | _ => none
  name?.bind fun s => choices.find? fun a => tag a == s

end Json

end FeatureFilter
