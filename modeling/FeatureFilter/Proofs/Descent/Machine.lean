import FeatureFilter.Phrase.Condition

/-!
# A machine that reads

Phrases can be read by a machine that has one place for what a reader is given: its position in the
tokens and the number of levels that it is in. A procedure of the machine changes both and has to
leave them in order. It leaves them behind where it fails, too, which matters when another attempt
follows.

All scenes of a session are kept, so that something can be said about each of them. A routine is a
step of a procedure, or several steps.
-/

namespace FeatureFilter

namespace Descent

/-! ## Sessions -/

/-- Where the machine is. -/
structure Scene where
  /-- The number of tokens in front of the next one. -/
  position : Nat
  /-- The number of levels that it is in. -/
  depth : Nat
  /-- The error that it is on the way out of. -/
  leaving : Option SyntaxError
  deriving DecidableEq

/-- What the machine went through, the latest scene apart. -/
structure Session where
  now : Scene
  before : List Scene

namespace Session

def position (s : Session) : Nat := s.now.position

def depth (s : Session) : Nat := s.now.depth

def scenes (s : Session) : List Scene := s.now :: s.before

def startAt (position depth : Nat) : Session := ⟨⟨position, depth, none⟩, []⟩

def goTo (s : Session) (x : Scene) : Session := ⟨x, s.scenes⟩

end Session

/-- Why a routine ends early. -/
inductive Halt where
  /-- The tokens are refused. -/
  | refused (e : SyntaxError)
  /-- A loop went round without taking a token. -/
  | stalled
  /-- The budget is used up. -/
  | exhausted

/-- What the machine does from a session on. -/
abbrev Routine (α : Type) : Type := Session → Except Halt α × Session

namespace Routine

/-- Goes on with what a routine gives, if it does not end early. -/
def andThen (x : Routine α) (f : α → Routine β) : Routine β := fun s =>
  match x s with
  | (.ok a, s') => f a s'
  | (.error h, s') => (.error h, s')

instance : Monad Routine where
  pure a := fun s => (.ok a, s)
  bind := andThen

def halt (h : Halt) : Routine α := fun s => (.error h, s)

def here : Routine Scene := fun s => (.ok s.now, s)

def goTo (x : Scene) : Routine Unit := fun s => (.ok (), s.goTo x)

def fail (e : SyntaxError) : Routine α := do
  goTo { ← here with leaving := some e }
  halt (.refused e)

def attempt (x : Routine α) : Routine (Except SyntaxError α) := fun s =>
  match x s with
  | (.ok a, s') => (.ok (.ok a), s')
  | (.error (.refused e), s') => (.ok (.error e), s')
  | (.error h, s') => (.error h, s')

def restore (x : Scene) : Routine Unit := goTo ⟨x.position, x.depth, none⟩

def leave : Routine Unit := do
  let x ← here
  goTo ⟨x.position, x.depth - 1, none⟩

/-- Goes on from a round that started in a scene. The round has to have taken a token. -/
def goRound (again : β → Routine β) (x : Scene) (b : β) : Option β → Routine β
  | none => return b
  | some b' => do
    if (← here).position ≤ x.position then halt .stalled
    else again b'

/-- Goes round until a round has nothing to go on with, at most `n` times. -/
def loop (round : β → Routine (Option β)) : Nat → β → Routine β
  | 0, _ => halt .exhausted
  | n + 1, b => do
    let x ← here
    goRound (loop round n) x b (← round b)

end Routine

open Routine

/-! ## Tokens -/

/-- What the machine works on. -/
structure Input where
  grammar : Grammar
  tokens : List Token

namespace Input

/-- Stands behind the last token. -/
def finish (p : Input) : Token := (Cursor.ofTokens p.grammar.source p.tokens).finish

def token (p : Input) (i : Nat) : Token := (p.tokens[i]?).getD p.finish

def kind (p : Input) (i : Nat) : TokenKind := (p.token i).kind

def lastStop (p : Input) : Nat → Nat
  | 0 => 0
  | i + 1 => (p.tokens[i]?).elim 0 (·.span.stop)

def cursor (p : Input) (i : Nat) : Cursor := ⟨p.tokens.drop i, p.lastStop i, p.finish⟩

def maxDepth (p : Input) : Nat := p.grammar.dialect.maxDepth

def tooDeep (p : Input) (i : Nat) : SyntaxError :=
  Reader.mismatch (p.token i) "shallower nesting"
    (some ("nesting exceeds " ++ toString p.maxDepth ++ " levels"))

end Input

section Steps

variable (p : Input)

/-- What a reader would see. -/
def look : Routine Cursor := do
  return p.cursor (← here).position

def peek : Routine Token := do
  return p.token (← here).position

def peekKind : Routine TokenKind := do
  return p.kind (← here).position

def advance : Routine Token := do
  let x ← here
  if x.position < p.tokens.length then goTo ⟨x.position + 1, x.depth, none⟩
  return p.token x.position

def failAt (t : Token) (expected : String) (hint : Option String) : Routine α :=
  fail (Reader.mismatch t expected hint)

def failHere (expected : String) (hint : Option String) : Routine α := do
  failAt (← peek p) expected hint

def eat (m : Mark) : Routine Bool := do
  if (← peekKind p) = .mark m then
    let _ ← advance p
    return true
  else
    return false

def expectKind (kind : TokenKind) (expected : String) : Routine Unit := do
  if (← peekKind p) = kind then
    let _ ← advance p
  else
    failHere p expected none

def expect (m : Mark) : Routine Unit := expectKind p (.mark m) ("'" ++ m.text ++ "'")

def spanFrom (t : Token) : Routine Span := do
  return { t.span with stop := max (p.lastStop (← here).position) t.span.stop }

/-- Goes one level deeper. Where that is too deep the machine fails in the level that there is not.
-/
def enter : Routine Unit := do
  let x ← here
  if p.maxDepth < x.depth + 1 then
    goTo ⟨x.position, x.depth + 1, some (p.tooDeep x.position)⟩
    halt (.refused (p.tooDeep x.position))
  else
    goTo ⟨x.position, x.depth + 1, none⟩

/-- A round that takes an item behind a token that `link?` recognises, and puts it to what it has.
-/
def linked (link? : TokenKind → Option κ) (item : Routine α) (add : β → κ → α → β) (b : β) :
    Routine (Option β) := do
  match link? (← peekKind p) with
  | some k =>
    let _ ← advance p
    return some (add b k (← item))
  | none => return none

def commaList (rounds : Nat) (item : Routine α) : Routine (List α) := do
  let first ← item
  let comma? (k : TokenKind) : Option Unit := if k = .mark .comma then some () else none
  loop (linked p comma? item fun items _ a => items ++ [a]) rounds [first]

end Steps

end Descent

end FeatureFilter
