import FeatureFilter.Dialect
import FeatureFilter.Geometry.Wkt
import FeatureFilter.Phrase.Literal
import FeatureFilter.Token

/-!
# Reading from tokens

The common ground of reading phrases: the error that says what was expected where, the cursor into
the tokens, and the steps that look at tokens, take them, repeat and nest.

Nesting is limited by the dialect. A reader of nested phrases is handed down as an option that is
`none` when no level is left, so that the number of levels is all that recursion needs.
-/

namespace FeatureFilter

/-- What was expected and what was found instead. -/
structure SyntaxError where
  span : Span
  expected : String
  found : String
  hint : Option String
  deriving DecidableEq, Repr

namespace SyntaxError

/-- Of the errors of two attempts the one that got further; the first one if neither did. -/
def furthest (a b : SyntaxError) : SyntaxError := if a.span.start < b.span.start then b else a

end SyntaxError

/-- What reading depends on besides the tokens. -/
structure Grammar where
  dialect : Dialect
  readGeometry : String → Except Wkt.Error Geometry
  /-- The text that the tokens were read from. -/
  source : String

/-- The tokens still to be read. -/
structure Cursor where
  ahead : List Token
  /-- The end of the last token read. -/
  lastStop : Nat
  /-- Stands behind the last token. -/
  finish : Token

namespace Cursor

/-- The start of a list of tokens. What stands behind the list is on the first line, at a column
that counts the bytes of the source. -/
def ofTokens (source : String) (tokens : List Token) : Cursor :=
  let size := source.utf8ByteSize
  ⟨tokens, 0, ⟨.finish, "", ⟨size, size, 1, size + 1⟩⟩⟩

def token (s : Cursor) (n : Nat) : Token := (s.ahead[n]?).getD s.finish

def kind (s : Cursor) (n : Nat) : TokenKind := (s.token n).kind

end Cursor

/-- Reads a phrase from the tokens at a cursor. -/
abbrev Reader := StateT Cursor (Except SyntaxError)

namespace Reader

/-! ## Looking and taking -/

def peek : Reader Token := do
  return (← get).token 0

def peekKind : Reader TokenKind := do
  return (← get).kind 0

/-- Takes the next token. Behind the last one there is nothing to take. -/
def advance : Reader Token := fun s =>
  match s.ahead with
  | [] => .ok (s.finish, s)
  | t :: ts => .ok (t, { s with ahead := ts, lastStop := t.span.stop })

def mismatch (t : Token) (expected : String) (hint : Option String) : SyntaxError :=
  ⟨t.span, expected, t.describe, hint⟩

def failAt (t : Token) (expected : String) (hint : Option String) : Reader α :=
  throw (mismatch t expected hint)

def failHere (expected : String) (hint : Option String) : Reader α := do
  failAt (← peek) expected hint

def eat (m : Mark) : Reader Bool := do
  if (← peekKind) = .mark m then
    let _ ← advance
    return true
  else
    return false

def expectKind (kind : TokenKind) (expected : String) : Reader Unit := do
  if (← peekKind) = kind then
    let _ ← advance
  else
    failHere expected none

def expect (m : Mark) : Reader Unit := expectKind (.mark m) ("'" ++ m.text ++ "'")

def spanFrom (t : Token) : Reader Span := do
  return { t.span with stop := max (← get).lastStop t.span.stop }

/-- What to write instead, if the token is a word of older dialects. -/
def hintFor (kind : TokenKind) : Option String :=
  match kind with
  | .identifier word => legacyHint? word
  | _ => none

/-! ## Repeating and nesting -/

/-- Repeats a step until it has nothing more to give, at most `n` times. -/
def repeated (step : Reader (Option α)) : Nat → Reader (List α)
  | 0 => return []
  | n + 1 => do
    match ← step with
    | some a => return a :: (← repeated step n)
    | none => return []

/-- Repeats a step that takes at least one token each time until it has nothing more to give. -/
def many (step : Reader (Option α)) : Reader (List α) := do
  repeated step (← get).ahead.length

/-- An item behind a token that `link?` recognises, together with what it stands for. -/
def linked (link? : TokenKind → Option β) (item : Reader α) : Reader (Option (β × α)) := do
  match link? (← peekKind) with
  | some b =>
    let _ ← advance
    return some (b, ← item)
  | none => return none

def commaList (item : Reader α) : Reader (List α) := do
  let first ← item
  let rest ← many (linked (fun k => if k = .mark .comma then some () else none) item)
  return first :: rest.map (·.2)

/-- Goes one level deeper: `body` is given the reader for the level below. -/
def deeper (g : Grammar) (below : Option α) (body : α → Reader β) : Reader β :=
  match below with
  | some r => body r
  | none =>
    failHere "shallower nesting"
      (some ("nesting exceeds " ++ toString g.dialect.maxDepth ++ " levels"))

end Reader

end FeatureFilter
