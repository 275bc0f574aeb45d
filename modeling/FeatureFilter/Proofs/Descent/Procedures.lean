import FeatureFilter.Proofs.Descent.Machine
import FeatureFilter.Proofs.Syntax.Groups

/-!
# The procedures of the machine

Each procedure calls the others, and so itself, as often as it needs to. `run n` runs a procedure
with a budget of `n`: calls may be `n` deep inside each other, and loops go round at most as often
as the calls inside them may be deep. With a budget that is large enough the machine reads what
`Procedure.reader` reads that it may go as many levels deeper as the machine has left.
-/

namespace FeatureFilter

namespace Descent

open Routine

/-- A procedure and what it is given. -/
inductive Procedure : Type → Type where
  /-- Chains of `OR`. -/
  | condition : Procedure Condition
  /-- Chains of `AND`. -/
  | conjunction : Procedure Condition
  | negation : Procedure Condition
  /-- A group of conditions or a predicate. -/
  | clause : Procedure Condition
  | conditionGroup (close : Mark) : Procedure Condition
  | predicate : Procedure Condition
  /-- What may be negated behind a value. -/
  | negatable (start : Token) (value : Operand) (negated : Bool) : Procedure Condition
  | pattern : Procedure String
  | choices : Procedure (List Operand)
  | sum : Procedure Operand
  | product : Procedure Operand
  | factor : Procedure Operand
  /-- A factor without a sign. -/
  | primary : Procedure Operand
  | operandGroup (close : Mark) : Procedure Operand
  | word (name : String) : Procedure Operand
  | call (name : String) : Procedure Operand
  | interval : Procedure Operand
  | bound : Procedure Operand
  | number : Procedure Literal
  | ordinate : Procedure Binary64
  | envelope : Procedure Operand
  | quotedInstant : Procedure (Token × String)
  | date : Procedure Operand
  | timestamp : Procedure Operand
  | withSrid : Procedure Operand
  | geometry (srid : Option Int64) : Procedure Operand

section Parts

variable (p : Input) (rounds : Nat)

def atNumber : Routine Bool := do
  let kind ← peekKind p
  return match kind with
    | .number _ => true
    | _ => false

def refuseRemoved : Routine Unit := do
  let s ← look p
  match s.kind 0 with
  | .keyword .inList =>
    failHere p "expression"
      (some "feature id predicates are not part of CQL2; IN needs a left-hand value")
  | .identifier word =>
    if (sameWord word "INCLUDE" || sameWord word "EXCLUDE") &&
        Condition.endsPredicate (s.kind 1) then
      failHere p "predicate"
        (some "INCLUDE and EXCLUDE are not part of CQL2; use 1 = 1 or 1 = 0")
  | _ => return ()

def groupClose : Routine (Option Mark) := do
  match ← peekKind p with
  | .mark .leftParen => return some .rightParen
  | .mark .leftBracket =>
    if p.grammar.dialect.allows .bracketGrouping then return some .rightBracket
    else failHere p "'('" (some Operand.bracketHint)
  | _ => return none

/-- Reads a group, and goes back to read a predicate where the group cannot be read or an operator
follows it. -/
def orPredicate (group predicate : Routine Condition) : Routine Condition := do
  let start ← here
  match ← attempt group with
  | .ok condition =>
    if Condition.atOperator (← look p) then
      restore start
      predicate
    else
      return condition
  | .error e =>
    restore start
    match ← attempt predicate with
    | .ok condition => return condition
    | .error e' => halt (.refused (e.furthest e'))

def clauses (k : Keyword) (join : Span → List Condition → Condition) (item : Routine Condition) :
    Routine Condition := do
  let first ← item
  if (← peekKind p) = .keyword k then
    let link? (kind : TokenKind) : Option Unit := if kind = .keyword k then some () else none
    let add (chain : Span × List Condition) (_ : Unit) (c : Condition) : Span × List Condition :=
      (chain.1.through c.span, chain.2 ++ [c])
    let (span, chain) ← loop (linked p link? item add) rounds (first.span, [first])
    return join span chain
  else
    return first

def operators (op? : TokenKind → Option ArithmeticOp) (item : Routine Operand) :
    Routine Operand := do
  let first ← item
  loop (linked p op? item Operand.combine) rounds first

/-- Takes a tag behind the type of a geometry. There is none behind `EMPTY`. -/
def tag (empty : Bool) : Routine (Option Bool) := do
  if empty then return none
  else
    match ← peekKind p with
    | .identifier word =>
      if isGeometryTag word then
        let _ ← advance p
        return some (sameWord word "EMPTY")
      else return none
    | _ => return none

def said (sum : Routine Operand) (negatable : Bool → Routine Condition) (start : Token)
    (value : Operand) (kind : TokenKind) : Routine Condition :=
  match Condition.comparisonOp? kind with
  | some op => do
    let _ ← advance p
    let right ← sum
    return .compare (← spanFrom p start) op value right
  | none =>
    match kind with
    | .keyword .not => do
      let _ ← advance p
      negatable true
    | .keyword .is => do
      let _ ← advance p
      let negated := (← peekKind p) = .keyword .not
      if negated then
        let _ ← advance p
      expectKind p (.keyword .null) "NULL"
      return .isNull (← spanFrom p start) negated value
    | .mark .bang =>
      failHere p "comparison operator" (some "use '<>' for inequality and NOT for negation")
    | _ => negatable false

/-- Takes a number behind its sign, as a double. -/
def magnitude (number : Routine Literal) (negative : Bool) : Routine Binary64 := do
  if ← atNumber p then
    match ← number with
    | .integer n => return if negative then (Binary64.ofInt n.toInt).neg else .ofInt n.toInt
    | .double x => return if negative then x.neg else x
    | _ => failHere p "number" none
  else
    failHere p "number" none

/-- How many parentheses of a geometry are not closed behind a token. -/
def pass (unclosed : Nat) (t : Token) : Routine (Option Nat) :=
  match t.kind with
  | .mark .leftParen =>
    if p.maxDepth < unclosed + 1 then failAt t "shallower nesting" none
    else return some (unclosed + 1)
  | .mark .rightParen => return some (unclosed - 1)
  | .finish => failAt t "')'" none
  | _ => return some unclosed

/-- Takes a token of a geometry while some of its parentheses are not closed. -/
def coordinate (unclosed : Nat) : Routine (Option Nat) := do
  if unclosed = 0 then return none
  else pass p unclosed (← advance p)

def handOver (srid : Option Int64) (start : Token) : Routine Operand := do
  let stop := (← look p).lastStop
  let span ← spanFrom p start
  match byteSlice p.grammar.source.toList start.span.start stop with
  | none => fail ⟨span, "WKT geometry", start.describe, none⟩
  | some cs =>
    let text := String.ofList cs
    match p.grammar.readGeometry text with
    | .ok shape => return .geometry span shape srid
    | .error e => fail ⟨span, "well-formed WKT geometry", "'" ++ text ++ "'", some e.message⟩

end Parts

/-- What a procedure does; `self` are the procedures that it calls. -/
def body (p : Input) (rounds : Nat) (self : {β : Type} → Procedure β → Routine β) :
    Procedure α → Routine α
  | .condition => clauses p rounds .or .any (self .conjunction)
  | .conjunction => clauses p rounds .and .all (self .negation)
  | .negation => do
    let start ← peek p
    if start.kind = .keyword .not then
      let _ ← advance p
      enter p
      let inner ← self .negation
      leave
      return .negation (← spanFrom p start) inner
    else
      self .clause
  | .clause => do
    match ← groupClose p with
    | some close => orPredicate p (self (.conditionGroup close)) (self .predicate)
    | none => self .predicate
  | .conditionGroup close => do
    let _ ← advance p
    enter p
    let inner ← self .condition
    expect p close
    leave
    return inner
  | .predicate => do
    refuseRemoved p
    let start ← peek p
    let value ← self .sum
    let kind ← peekKind p
    match Condition.endsPredicate kind, value with
    | true, .call span name args => return .call span name args
    | _, _ =>
      said p (self .sum) (fun negated => self (.negatable start value negated)) start value kind
  | .negatable start value negated => do
    let kind ← peekKind p
    match kind with
    | .keyword .between =>
      let _ ← advance p
      let low ← self .sum
      expectKind p (.keyword .and) "AND"
      let high ← self .sum
      return .between (← spanFrom p start) negated value low high
    | .keyword .like =>
      let _ ← advance p
      let pattern ← self .pattern
      return .like (← spanFrom p start) negated value pattern true
    | .keyword .inList =>
      let _ ← advance p
      let choices ← self .choices
      return .inList (← spanFrom p start) negated value choices
    | _ =>
      let isIlike := match kind with
        | .identifier word => sameWord word "ILIKE" && p.grammar.dialect.allows .ilike
        | _ => false
      if isIlike then
        let _ ← advance p
        let pattern ← self .pattern
        return .like (← spanFrom p start) negated value pattern false
      else
        failHere p (if negated then "BETWEEN, LIKE or IN" else "comparison operator or predicate")
          (Reader.hintFor kind)
  | .pattern => do
    match ← peekKind p with
    | .string content =>
      let _ ← advance p
      return content
    | _ => failHere p "string pattern" none
  | .choices => do
    expect p .leftParen
    enter p
    let choices ← commaList p rounds (self .sum)
    expectKind p (.mark .rightParen) "',' or ')'"
    leave
    return choices
  | .sum => operators p rounds Operand.sumOp? (self .product)
  | .product => operators p rounds Operand.productOp? (self .factor)
  | .factor => do
    match Operand.sign? (← peekKind p) with
    | none => self .primary
    | some negative =>
      let t ← advance p
      if ← atNumber p then
        let n ← self .number
        return .literal (← spanFrom p t) (if negative then n.negated else n)
      else
        enter p
        let operand ← self .factor
        leave
        if negative then
          return Operand.combine (.literal t.span (.integer (-1))) .mul operand
        else
          return operand
  | .primary => do
    let t ← peek p
    match t.kind with
    | .number _ =>
      let n ← self .number
      return .literal t.span n
    | .string content =>
      let _ ← advance p
      return .literal t.span (Operand.stringLiteral p.grammar content)
    | .keyword .isTrue =>
      let _ ← advance p
      return .literal t.span (.boolean true)
    | .keyword .isFalse =>
      let _ ← advance p
      return .literal t.span (.boolean false)
    | .mark .leftParen => self (.operandGroup .rightParen)
    | .mark .leftBracket =>
      if p.grammar.dialect.allows .bracketGrouping then self (.operandGroup .rightBracket)
      else failHere p "expression" (some Operand.bracketHint)
    | .quotedIdentifier name =>
      let _ ← advance p
      return .property t.span (.ofQuoted name t.span)
    | .identifier name => self (.word name)
    | .keyword .null => failHere p "expression" (some "compare against NULL with IS NULL")
    | _ => failHere p "expression" none
  | .operandGroup close => do
    let start ← advance p
    enter p
    let inner ← self .sum
    expect p close
    leave
    return inner.withSpan (← spanFrom p start)
  | .word name => do
    let s ← look p
    if sameWord name "SRID" && Operand.atSrid s then self .withSrid
    else if isGeometryWord name && Operand.goesOnAsGeometry (s.kind 1) then self (.geometry none)
    else if s.kind 1 ≠ .mark .leftParen then
      let t ← advance p
      return .property t.span (.ofWord name t.span)
    else if sameWord name "ENVELOPE" then self .envelope
    else if sameWord name "DATE" then self .date
    else if sameWord name "TIMESTAMP" then self .timestamp
    else if sameWord name "INTERVAL" then self .interval
    else self (.call name)
  | .call name => do
    if p.grammar.dialect.rejects name then
      failHere p "expression or predicate"
        (some (name.toUpper ++ " is not part of CQL2; use the S_* spatial functions"))
    else
      let start ← advance p
      expect p .leftParen
      enter p
      if ← eat p .rightParen then
        leave
        return .call (← spanFrom p start) name []
      else
        let args ← commaList p rounds (self .sum)
        expectKind p (.mark .rightParen) "',' or ')'"
        leave
        return .call (← spanFrom p start) name args
  | .interval => do
    let start ← advance p
    expect p .leftParen
    enter p
    let first ← self .bound
    expect p .comma
    let last ← self .bound
    expect p .rightParen
    leave
    return .interval (← spanFrom p start) first last
  | .bound => do
    let t ← peek p
    match t.kind with
    | .string content =>
      (p.grammar.stringBound? t.span content).elim (self .sum) fun bound => do
        let _ ← advance p
        return bound
    | _ => self .sum
  | .number => do
    let t ← advance p
    match t.kind with
    | .number numeral =>
      match Literal.readNumber numeral with
      | .ok n => return n
      | .error e => fail (Operand.literalError t "number" e)
    | _ => failAt t "number" none
  | .ordinate => do
    let negative ← eat p .minus
    let _ ← if negative then pure false else eat p .plus
    magnitude p (self .number) negative
  | .envelope => do
    let start ← advance p
    expect p .leftParen
    let west ← self .ordinate
    expect p .comma
    let south ← self .ordinate
    expect p .comma
    let east ← self .ordinate
    expect p .comma
    let north ← self .ordinate
    expect p .rightParen
    return .geometry (← spanFrom p start) (.envelope west south east north) none
  | .quotedInstant => do
    let _ ← advance p
    expect p .leftParen
    let t ← peek p
    match t.kind with
    | .string content =>
      let _ ← advance p
      expect p .rightParen
      return (t, content)
    | _ => failHere p "quoted date or timestamp" none
  | .date => do
    let start ← peek p
    let (t, content) ← self .quotedInstant
    match Literal.readDate content with
    | .ok d => return .literal (← spanFrom p start) (.date d)
    | .error e => fail (Operand.literalError t "date as YYYY-MM-DD" e)
  | .timestamp => do
    let start ← peek p
    let (t, content) ← self .quotedInstant
    match Literal.readTimestamp (p.grammar.dialect.allows .naiveTimestamps) content with
    | .ok i => return .literal (← spanFrom p start) (.timestamp i)
    | .error e => fail (Operand.literalError t "RFC 3339 timestamp" e)
  | .withSrid => do
    let start ← advance p
    let _ ← advance p
    let t ← advance p
    match t.kind with
    | .number numeral =>
      match readInt64? numeral.toList with
      | none => failAt t "integer SRID" none
      | some srid =>
        let _ ← advance p
        if Operand.atGeometry (← look p) then
          let inner ← self (.geometry (some srid))
          return inner.withSpan (← spanFrom p start)
        else
          failHere p "WKT geometry after SRID prefix" none
    | _ => failAt t "SRID" none
  | .geometry srid => do
    let start ← advance p
    let empty ← loop (tag p) rounds false
    unless empty do
      expect p .leftParen
      let _ ← loop (coordinate p) rounds 1
    handOver p srid start

/-- Runs a procedure with a budget. -/
def run (p : Input) : Nat → Procedure α → Routine α
  | 0, _ => halt .exhausted
  | n + 1, c => body p n (run p n) c

def expectFinish (p : Input) : Routine Unit := do
  let kind ← peekKind p
  if kind ≠ .finish then
    failHere p "end of input" (Reader.hintFor kind)

/-- Runs a procedure that has to take all tokens. -/
def parse (p : Input) (budget : Nat) (c : Procedure α) : Except Halt α × Session :=
  (do
    let a ← run p budget c
    expectFinish p
    return a : Routine α) (.startAt 0 0)

namespace Procedure

/-- What reads the same phrases, with `room` levels left. -/
def reader (g : Grammar) (room : Nat) : Procedure α → Reader α
  | condition => Condition.read g room
  | conjunction => Condition.readChain .and .all (Condition.readNegation g room)
  | negation => Condition.readNegation g room
  | clause => Condition.readPrimary g (Operand.read g room) (Reader.below (Operand.read g) room)
    (Reader.below (Condition.read g) room)
  | conditionGroup close => Condition.readGroup g (Reader.below (Condition.read g) room) close
  | predicate =>
    Condition.readPredicate g (Operand.read g room) (Reader.below (Operand.read g) room)
  | negatable start value negated => Condition.readNegatable g (Operand.read g room)
    (Reader.below (Operand.read g) room) start value negated
  | pattern => Condition.readPattern
  | choices => Condition.readChoices g (Reader.below (Operand.read g) room)
  | sum => Operand.read g room
  | product => Operand.readChain Operand.productOp? (Operand.readFactor g room)
  | factor => Operand.readFactor g room
  | primary => Operand.readPrimary g (Reader.below (Operand.read g) room)
  | operandGroup close => Operand.readGroup g (Reader.below (Operand.read g) room) close
  | word name => Operand.readWord g (Reader.below (Operand.read g) room) name
  | call name => Operand.readCall g (Reader.below (Operand.read g) room) name
  | interval => Operand.readInterval g (Reader.below (Operand.read g) room)
  | bound => Operand.readBound g (Operand.read g room)
  | number => Operand.readNumber
  | ordinate => Operand.readOrdinate
  | envelope => Operand.readEnvelope
  | quotedInstant => Operand.readQuotedInstant
  | date => Operand.readDate
  | timestamp => Operand.readTimestamp g
  | withSrid => Operand.readWithSrid g
  | geometry srid => Operand.readGeometry g srid

/-- Where the procedure may be called: a word is one of the tokens. -/
def Ready (p : Input) (position : Nat) : Procedure α → Prop
  | word _ => position < p.tokens.length
  | _ => True

end Procedure

end Descent

end FeatureFilter
