import FeatureFilter.Phrase.Reader

/-!
# Reading operands

Sums of products of signed factors. A factor is a literal, a property, a call, an interval, a
geometry, or an operand in parentheses.
-/

namespace FeatureFilter

open Reader

namespace Operand

/-! ## Numbers, dates and timestamps -/

/-- The error of a token whose text is not the literal it should be. -/
def literalError (t : Token) (expected : String) (e : LiteralError) : SyntaxError :=
  mismatch t expected (some e.message)

def readNumber : Reader Literal := do
  let t ← advance
  match t.kind with
  | .number numeral =>
    match Literal.readNumber numeral with
    | .ok n => return n
    | .error e => throw (literalError t "number" e)
  | _ => failAt t "number" none

def atNumber : Reader Bool := do
  match ← peekKind with
  | .number _ => return true
  | _ => return false

/-- Takes a number with an optional sign, as a double. -/
def readOrdinate : Reader Binary64 := do
  let negative ← eat .minus
  let _ ← if negative then pure false else eat .plus
  if ← atNumber then
    match ← readNumber with
    | .integer n => return if negative then (Binary64.ofInt n.toInt).neg else .ofInt n.toInt
    | .double x => return if negative then x.neg else x
    | _ => failHere "number" none
  else
    failHere "number" none

def readEnvelope : Reader Operand := do
  let start ← advance
  expect .leftParen
  let west ← readOrdinate
  expect .comma
  let south ← readOrdinate
  expect .comma
  let east ← readOrdinate
  expect .comma
  let north ← readOrdinate
  expect .rightParen
  return .geometry (← spanFrom start) (.envelope west south east north) none

/-- The string in the parentheses of `DATE` and `TIMESTAMP`, with its token. -/
def readQuotedInstant : Reader (Token × String) := do
  let _ ← advance
  expect .leftParen
  let t ← peek
  match t.kind with
  | .string content =>
    let _ ← advance
    expect .rightParen
    return (t, content)
  | _ => failHere "quoted date or timestamp" none

def readDate : Reader Operand := do
  let start ← peek
  let (t, content) ← readQuotedInstant
  match Literal.readDate content with
  | .ok d => return .literal (← spanFrom start) (.date d)
  | .error e => throw (literalError t "date as YYYY-MM-DD" e)

def readTimestamp (g : Grammar) : Reader Operand := do
  let start ← peek
  let (t, content) ← readQuotedInstant
  match Literal.readTimestamp (g.dialect.allows .naiveTimestamps) content with
  | .ok i => return .literal (← spanFrom start) (.timestamp i)
  | .error e => throw (literalError t "RFC 3339 timestamp" e)

/-- A string: a colour where the dialect has colour literals. -/
def stringLiteral (g : Grammar) (content : String) : Literal :=
  match Color.read? content.toList with
  | some c => if g.dialect.colorLiterals then .color c else .string content
  | none => .string content

/-! ## Geometries -/

/-- Passes over tokens until `depth` open parentheses are closed: the end of the closing one, and
what follows it. No more than `limit` of them may be open at once. -/
def closing (limit : Nat) (finish : Token) (depth : Nat) :
    List Token → Except SyntaxError (Nat × List Token)
  | [] => .error (mismatch finish "')'" none)
  | t :: ts =>
    match t.kind with
    | .mark .leftParen =>
      if limit < depth + 1 then .error (mismatch t "shallower nesting" none)
      else closing limit finish (depth + 1) ts
    | .mark .rightParen =>
      if depth ≤ 1 then .ok (t.span.stop, ts) else closing limit finish (depth - 1) ts
    | .finish => .error (mismatch t "')'" none)
    | _ => closing limit finish depth ts

/-- Passes over the tags behind the type of a geometry; true when the last of them is `EMPTY`. -/
def skipTags : Reader Bool := do
  let _ ← many do
    match ← peekKind with
    | .identifier word =>
      if isGeometryTag word && !sameWord word "EMPTY" then
        let _ ← advance
        return some ()
      else return none
    | _ => return none
  match ← peekKind with
  | .identifier word =>
    if sameWord word "EMPTY" then
      let _ ← advance
      return true
    else return false
  | _ => return false

/-- A geometry: its text runs to the parenthesis that closes the first one, and is read on its
own. -/
def readGeometry (g : Grammar) (srid : Option Int64) : Reader Operand := do
  let start ← advance
  let empty ← skipTags
  unless empty do
    expect .leftParen
    let s ← get
    let (stop, ahead) ← closing g.dialect.maxDepth s.finish 1 s.ahead
    set { s with ahead := ahead, lastStop := stop }
  let stop := (← get).lastStop
  let span ← spanFrom start
  match byteSlice g.source.toList start.span.start stop with
  | none => throw ⟨span, "WKT geometry", start.describe, none⟩
  | some cs =>
    let text := String.ofList cs
    match g.readGeometry text with
    | .ok shape => return .geometry span shape srid
    | .error e => throw ⟨span, "well-formed WKT geometry", "'" ++ text ++ "'", some e.message⟩

/-- Whether the token behind the type of a geometry goes on with one. -/
def goesOnAsGeometry (kind : TokenKind) : Bool :=
  match kind with
  | .mark .leftParen => true
  | .identifier word => isGeometryTag word
  | _ => false

/-- Whether the next tokens are `SRID = n ;`, the first of them being known. -/
def atSrid (s : Cursor) : Bool :=
  match s.kind 1, s.kind 2, s.kind 3 with
  | .mark .equal, .number _, .mark .semicolon => true
  | _, _, _ => false

/-- `SRID=n;` and a geometry. -/
def readWithSrid (g : Grammar) : Reader Operand := do
  let start ← advance
  let _ ← advance
  let t ← advance
  match t.kind with
  | .number numeral =>
    match readInt64? numeral.toList with
    | none => failAt t "integer SRID" none
    | some srid =>
      let _ ← advance
      let s ← get
      let isGeometry := match s.kind 0 with
        | .identifier word => isGeometryWord word && goesOnAsGeometry (s.kind 1)
        | _ => false
      if isGeometry then
        let inner ← readGeometry g (some srid)
        return inner.withSpan (← spanFrom start)
      else
        failHere "WKT geometry after SRID prefix" none
  | _ => failAt t "SRID" none

/-! ## Calls and intervals -/

/-- A call; `below` reads its arguments. -/
def readCall (g : Grammar) (below : Option (Reader Operand)) (name : String) : Reader Operand := do
  if g.dialect.rejects name then
    failHere "expression or predicate"
      (some (name.toUpper ++ " is not part of CQL2; use the S_* spatial functions"))
  else
    let start ← advance
    expect .leftParen
    deeper g below fun argument => do
      if ← eat .rightParen then
        return .call (← spanFrom start) name []
      else
        let args ← commaList argument
        expectKind (.mark .rightParen) "',' or ')'"
        return .call (← spanFrom start) name args

/-- A bound of an interval. A string is the open bound, or an instant without its wrapper; what is
neither is read as an operand. -/
def readBound (g : Grammar) (operand : Reader Operand) : Reader Operand := do
  let t ← peek
  match t.kind with
  | .string content =>
    let bound? : Option Operand :=
      if content = openMarker then some (.openBound t.span)
      else match Literal.readTimestamp (g.dialect.allows .naiveTimestamps) content with
        | .ok i => some (.literal t.span (.timestamp i))
        | .error _ =>
          match Literal.readDate content with
          | .ok d => some (.literal t.span (.date d))
          | .error _ => none
    match bound? with
    | some bound =>
      let _ ← advance
      return bound
    | none => operand
  | _ => operand

/-- `INTERVAL(start, stop)`; `below` reads its bounds. -/
def readInterval (g : Grammar) (below : Option (Reader Operand)) : Reader Operand := do
  let start ← advance
  expect .leftParen
  deeper g below fun operand => do
    let first ← readBound g operand
    expect .comma
    let last ← readBound g operand
    expect .rightParen
    return .interval (← spanFrom start) first last

/-! ## Operands -/

/-- A word without quotes: a geometry, a property, or a call of some kind. -/
def readWord (g : Grammar) (below : Option (Reader Operand)) (word : String) : Reader Operand := do
  let s ← get
  if sameWord word "SRID" && atSrid s then readWithSrid g
  else if isGeometryWord word && goesOnAsGeometry (s.kind 1) then readGeometry g none
  else if s.kind 1 ≠ .mark .leftParen then
    let t ← advance
    return .property t.span (.ofWord word t.span)
  else if sameWord word "ENVELOPE" then readEnvelope
  else if sameWord word "DATE" then readDate
  else if sameWord word "TIMESTAMP" then readTimestamp g
  else if sameWord word "INTERVAL" then readInterval g below
  else readCall g below word

/-- An operand in parentheses or brackets; `below` reads what is inside. -/
def readGroup (g : Grammar) (below : Option (Reader Operand)) (close : Mark) : Reader Operand := do
  let start ← advance
  deeper g below fun operand => do
    let inner ← operand
    expect close
    return inner.withSpan (← spanFrom start)

def bracketHint : String := "bracket grouping is not part of CQL2; use parentheses"

/-- A factor without a sign; `below` reads the operands inside it. -/
def readPrimary (g : Grammar) (below : Option (Reader Operand)) : Reader Operand := do
  let t ← peek
  match t.kind with
  | .number _ =>
    let n ← readNumber
    return .literal t.span n
  | .string content =>
    let _ ← advance
    return .literal t.span (stringLiteral g content)
  | .keyword .isTrue =>
    let _ ← advance
    return .literal t.span (.boolean true)
  | .keyword .isFalse =>
    let _ ← advance
    return .literal t.span (.boolean false)
  | .mark .leftParen => readGroup g below .rightParen
  | .mark .leftBracket =>
    if g.dialect.allows .bracketGrouping then readGroup g below .rightBracket
    else failHere "expression" (some bracketHint)
  | .quotedIdentifier name =>
    let _ ← advance
    return .property t.span (.ofQuoted name t.span)
  | .identifier word => readWord g below word
  | .keyword .null => failHere "expression" (some "compare against NULL with IS NULL")
  | _ => failHere "expression" none

/-- Items with operators between them, grouped to the left. -/
def readChain (op? : TokenKind → Option ArithmeticOp) (item : Reader Operand) : Reader Operand := do
  let first ← item
  let links ← many (linked op? item)
  return links.foldl (fun left (op, right) => left.combine op right) first

def productOp? : TokenKind → Option ArithmeticOp
  | .mark .star => some .mul
  | .mark .slash => some .div
  | _ => none

def sumOp? : TokenKind → Option ArithmeticOp
  | .mark .plus => some .add
  | .mark .minus => some .sub
  | _ => none

def readSum (factor : Reader Operand) : Reader Operand :=
  readChain sumOp? (readChain productOp? factor)

/-- The sign that a token is; true for minus. -/
def sign? : TokenKind → Option Bool
  | .mark .minus => some true
  | .mark .plus => some false
  | _ => none

/-- A factor with its signs; `below` reads the factors one level deeper. A sign in front of a number
is part of it; in front of anything else minus multiplies by minus one. -/
def readFactorOver (g : Grammar) (below : Option (Reader Operand)) : Reader Operand := do
  match sign? (← peekKind) with
  | none => readPrimary g (below.map readSum)
  | some negative =>
    let t ← advance
    if ← atNumber then
      let n ← readNumber
      return .literal (← spanFrom t) (if negative then n.negated else n)
    else
      deeper g below fun factor => do
        let operand ← factor
        if negative then
          return combine (.literal t.span (.integer (-1))) .mul operand
        else
          return operand

def readFactor (g : Grammar) : Nat → Reader Operand
  | 0 => readFactorOver g none
  | room + 1 => readFactorOver g (some (readFactor g room))

/-- An operand with at most `room` levels of nesting. -/
def read (g : Grammar) (room : Nat) : Reader Operand := readSum (readFactor g room)

end Operand

end FeatureFilter
