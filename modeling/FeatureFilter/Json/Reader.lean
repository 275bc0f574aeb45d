import FeatureFilter.Color
import FeatureFilter.Json.Number
import FeatureFilter.Text.Ranges

/-!
# Reading JSON text

Reads a text that is one JSON value with blanks around its tokens. Escapes of surrogates stand for a
character only in pairs: a string with one that has no partner is well formed, but it is no text.
-/

namespace FeatureFilter

namespace Json

/-- Reads something off the front of a text. -/
abbrev Reader := StateT (List Char) Option

/-! ## Strings -/

/-- The value of four hexadecimal digits. -/
def readUnit (ds : List Char) : Option Nat := readHex 0 ds

def escaped? : Char → Option Char
  | '"' => some '"'
  | '\\' => some '\\'
  | '/' => some '/'
  | 'b' => some '\x08'
  | 'f' => some '\x0c'
  | 'n' => some '\n'
  | 'r' => some '\r'
  | 't' => some '\t'
  | _ => none

def ofSurrogates (high low : Nat) : Char :=
  Char.ofNat (0x10000 + (high - 0xD800) * 0x400 + (low - 0xDC00))

/-- A character of a string, escaped or not, and what follows it. A surrogate without a partner
takes the place of a character, but is none. -/
def splitChar? : List Char → Option (Option Char × List Char)
  | '\\' :: 'u' :: a :: b :: c :: d :: rest => do
    let unit ← readUnit [a, b, c, d]
    if unit < 0xD800 ∨ 0xE000 ≤ unit then some (some (Char.ofNat unit), rest)
    else if 0xDC00 ≤ unit then some (none, rest)
    else
      match rest with
      | '\\' :: 'u' :: e :: f :: g :: h :: rest' => do
        let low ← readUnit [e, f, g, h]
        if 0xDC00 ≤ low ∧ low < 0xE000 then some (some (ofSurrogates unit low), rest')
        else some (none, rest)
      | _ => some (none, rest)
  | '\\' :: c :: rest => (escaped? c).map (some ·, rest)
  | c :: rest => if c = '\\' ∨ c.toNat < 0x20 then none else some (some c, rest)
  | [] => none

theorem length_lt_of_splitChar? {cs rest : List Char} {c : Option Char}
    (h : splitChar? cs = some (c, rest)) : rest.length < cs.length := by
  unfold splitChar? at h
  split at h
  · simp only [Option.bind_eq_bind, Option.bind_eq_some_iff] at h
    obtain ⟨unit, -, h⟩ := h
    split at h
    · simp only [Option.some.injEq, Prod.mk.injEq] at h
      obtain ⟨-, rfl⟩ := h
      simp only [List.length_cons]
      omega
    · split at h
      · simp only [Option.some.injEq, Prod.mk.injEq] at h
        obtain ⟨-, rfl⟩ := h
        simp only [List.length_cons]
        omega
      · split at h
        · simp only [Option.bind_eq_some_iff] at h
          obtain ⟨low, -, h⟩ := h
          split at h <;>
            (simp only [Option.some.injEq, Prod.mk.injEq] at h
             obtain ⟨-, rfl⟩ := h
             simp only [List.length_cons]
             omega)
        · simp only [Option.some.injEq, Prod.mk.injEq] at h
          obtain ⟨-, rfl⟩ := h
          simp only [List.length_cons]
          omega
  · obtain ⟨d, -, h⟩ := Option.map_eq_some_iff.1 h
    simp only [Prod.mk.injEq] at h
    obtain ⟨-, rfl⟩ := h
    simp only [List.length_cons]
    omega
  · split at h
    · simp at h
    · simp only [Option.some.injEq, Prod.mk.injEq] at h
      obtain ⟨-, rfl⟩ := h
      simp
  · simp at h

/-- The characters of a string up to the quote that closes it, and what follows that. -/
def splitString? (cs : List Char) : Option (List (Option Char) × List Char) :=
  match cs with
  | [] => none
  | c :: rest =>
    if c = '"' then some ([], rest)
    else
      match _h : splitChar? (c :: rest) with
      | none => none
      | some (d, rest) => (splitString? rest).map fun (ds, rest) => (d :: ds, rest)
termination_by cs.length
decreasing_by exact length_lt_of_splitChar? _h

/-! ## Values -/

/-- The next character behind blanks. -/
def peek : Reader (Option Char) := do
  modify (·.dropWhile isBlank)
  return (← get).head?

def eat (c : Char) : Reader Bool := do
  if (← peek) = some c then
    modify (·.tail)
    return true
  else
    return false

def expect (c : Char) : Reader Unit := do
  unless ← eat c do failure

def quoted : Reader (Option String) := do
  expect '"'
  let (cs, rest) ← splitString? (← get)
  set rest
  return (cs.mapM id).map String.ofList

def word (letters : String) (j : Json) : Reader Json := do
  let cs ← get
  if letters.toList.isPrefixOf cs then
    set (cs.drop letters.length)
    return j
  else
    failure

/-- Items behind commas, at most `n`, and the mark that closes their list. -/
def moreItems (close : Char) (item : Reader α) : Nat → Reader (List α)
  | 0 => failure
  | n + 1 => do
    if ← eat ',' then
      let a ← item
      return a :: (← moreItems close item n)
    else
      expect close
      return []

/-- A list of items from behind its opening mark. Every item but the first takes a comma, so that
there are no more than characters. -/
def items (close : Char) (item : Reader α) : Reader (List α) := do
  if ← eat close then
    return []
  else
    let a ← item
    return a :: (← moreItems close item ((← get).length + 1))

/-- A field of an object, if its name is a text. -/
def member (value : Reader Json) : Reader (Option (String × Json)) := do
  let name? ← quoted
  expect ':'
  let j ← value
  return name?.map (·, j)

/-- A value whose parts are read by `value`. -/
def valueOver (value : Reader Json) : Reader Json := do
  match ← peek with
  | some '"' => return (← quoted).elim unreadable string
  | some '[' =>
    expect '['
    return array (← items ']' value)
  | some '\x7b' =>
    expect '\x7b'
    let fields ← items '\x7d' (member value)
    return (fields.mapM id).elim unreadable object
  | some 'n' => word "null" null
  | some 't' => word "true" (boolean true)
  | some 'f' => word "false" (boolean false)
  | _ =>
    let (j, rest) ← splitNumber? (← get)
    set rest
    return j

/-- A value in which arrays and objects stand at most `n` deep inside each other. -/
def value : Nat → Reader Json
  | 0 => failure
  | n + 1 => valueOver (value n)

/-- The value of a text. Every array and object takes a character, so that they are no deeper than
the text is long. -/
def read? (text : String) : Option Json := do
  let cs := text.toList
  let (j, rest) ← value cs.length cs
  if rest.all isBlank then some j else none

end Json

end FeatureFilter
