import FeatureFilter.Phrase.Operand

/-!
# Reading conditions

Chains of `OR` over chains of `AND` over negations of predicates. An opening parenthesis may start a
group of conditions or an operand: it is read as a group first, and read again as part of a
predicate when that fails or when an operator follows the group.
-/

namespace FeatureFilter

open Reader

namespace Condition

/-! ## Predicates -/

def comparisonOp? : TokenKind → Option ComparisonOp
  | .mark .equal => some .eq
  | .mark .notEqual => some .ne
  | .mark .less => some .lt
  | .mark .lessOrEqual => some .le
  | .mark .greater => some .gt
  | .mark .greaterOrEqual => some .ge
  | _ => none

/-- Whether a condition can end in front of the token. -/
def endsPredicate : TokenKind → Bool
  | .finish | .keyword .and | .keyword .or | .mark .rightParen | .mark .rightBracket => true
  | _ => false

/-- Whether the next token goes on with a predicate whose first operand is read. -/
def atOperator (s : Cursor) : Bool :=
  match s.kind 0 with
  | .mark .plus | .mark .minus | .mark .star | .mark .slash | .mark .bang => true
  | .keyword .between | .keyword .like | .keyword .is | .keyword .inList => true
  | .keyword .not =>
    match s.kind 1 with
    | .keyword .between | .keyword .like | .keyword .inList => true
    | _ => false
  | .identifier word => (legacyHint? word).isSome
  | k => k.isComparison

/-- The string behind `LIKE` and `ILIKE`. -/
def readPattern : Reader String := do
  match ← peekKind with
  | .string content =>
    let _ ← advance
    return content
  | _ => failHere "string pattern" none

def readChoices (g : Grammar) (below : Option (Reader Operand)) : Reader (List Operand) := do
  expect .leftParen
  deeper g below fun item => do
    let choices ← commaList item
    expectKind (.mark .rightParen) "',' or ')'"
    return choices

/-- `BETWEEN`, `LIKE`, `ILIKE` or `IN` behind the value that started at `start`. -/
def readNegatable (g : Grammar) (operand : Reader Operand) (below : Option (Reader Operand))
    (start : Token) (value : Operand) (negated : Bool) : Reader Condition := do
  let kind ← peekKind
  match kind with
  | .keyword .between =>
    let _ ← advance
    let low ← operand
    expectKind (.keyword .and) "AND"
    let high ← operand
    return .between (← spanFrom start) negated value low high
  | .keyword .like =>
    let _ ← advance
    let pattern ← readPattern
    return .like (← spanFrom start) negated value pattern true
  | .keyword .inList =>
    let _ ← advance
    let choices ← readChoices g below
    return .inList (← spanFrom start) negated value choices
  | _ =>
    let isIlike := match kind with
      | .identifier word => sameWord word "ILIKE" && g.dialect.allows .ilike
      | _ => false
    if isIlike then
      let _ ← advance
      let pattern ← readPattern
      return .like (← spanFrom start) negated value pattern false
    else
      failHere (if negated then "BETWEEN, LIKE or IN" else "comparison operator or predicate")
        (hintFor kind)

/-- Refuses predicates of older dialects that stand in front of an operand. -/
def refuseRemoved : Reader Unit := do
  let s ← get
  match s.kind 0 with
  | .keyword .inList =>
    failHere "expression"
      (some "feature id predicates are not part of CQL2; IN needs a left-hand value")
  | .identifier word =>
    if (sameWord word "INCLUDE" || sameWord word "EXCLUDE") && endsPredicate (s.kind 1) then
      failHere "predicate"
        (some "INCLUDE and EXCLUDE are not part of CQL2; use 1 = 1 or 1 = 0")
  | _ => return ()

/-- A predicate: an operand and what is said about it. A call alone is a predicate, too. -/
def readPredicate (g : Grammar) (operand : Reader Operand) (below : Option (Reader Operand)) :
    Reader Condition := do
  refuseRemoved
  let start ← peek
  let value ← operand
  let kind ← peekKind
  match endsPredicate kind, value with
  | true, .call span name args => return .call span name args
  | _, _ =>
    match comparisonOp? kind with
    | some op =>
      let _ ← advance
      let right ← operand
      return .compare (← spanFrom start) op value right
    | none =>
      match kind with
      | .keyword .not =>
        let _ ← advance
        readNegatable g operand below start value true
      | .keyword .is =>
        let _ ← advance
        let negated := (← peekKind) = .keyword .not
        if negated then
          let _ ← advance
        expectKind (.keyword .null) "NULL"
        return .isNull (← spanFrom start) negated value
      | .mark .bang =>
        failHere "comparison operator" (some "use '<>' for inequality and NOT for negation")
      | _ => readNegatable g operand below start value false

/-! ## Groups and chains -/

/-- What closes the group that the next token opens, if it opens one. -/
def groupClose (g : Grammar) : Reader (Option Mark) := do
  match ← peekKind with
  | .mark .leftParen => return some .rightParen
  | .mark .leftBracket =>
    if g.dialect.allows .bracketGrouping then return some .rightBracket
    else failHere "'('" (some Operand.bracketHint)
  | _ => return none

/-- A condition in parentheses or brackets; `below` reads what is inside. -/
def readGroup (g : Grammar) (below : Option (Reader Condition)) (close : Mark) :
    Reader Condition := do
  let _ ← advance
  deeper g below fun condition => do
    let inner ← condition
    expect close
    return inner

/-- Reads a group, or a predicate where the group cannot be read or an operator follows it. When
neither can be read the error that got further is kept. -/
def orPredicate (group predicate : Reader Condition) : Reader Condition := fun s =>
  match group s with
  | .ok (condition, rest) => if atOperator rest then predicate s else .ok (condition, rest)
  | .error e =>
    match predicate s with
    | .ok r => .ok r
    | .error e' => .error (e.furthest e')

def readPrimary (g : Grammar) (operand : Reader Operand) (belowOperand : Option (Reader Operand))
    (below : Option (Reader Condition)) : Reader Condition := do
  let predicate := readPredicate g operand belowOperand
  match ← groupClose g with
  | some close => orPredicate (readGroup g below close) predicate
  | none => predicate

/-- Conditions with a keyword between them; `join` makes a chain of more than one. -/
def readChain (k : Keyword) (join : Span → List Condition → Condition)
    (item : Reader Condition) : Reader Condition := do
  let first ← item
  let links ← many (linked (fun kind => if kind = .keyword k then some () else none) item)
  let rest := links.map (·.2)
  if rest.isEmpty then return first
  else return join (rest.foldl (fun span c => span.through c.span) first.span) (first :: rest)

def readChains (item : Reader Condition) : Reader Condition :=
  readChain .or .any (readChain .and .all item)

/-- A predicate or a group behind any number of `NOT`; `below` reads negations one level deeper. -/
def readNegationOver (g : Grammar) (operand : Reader Operand)
    (belowOperand : Option (Reader Operand)) (below : Option (Reader Condition)) :
    Reader Condition := do
  let t ← peek
  if t.kind = .keyword .not then
    let _ ← advance
    deeper g below fun negation => do
      let inner ← negation
      return .negation (← spanFrom t) inner
  else
    readPrimary g operand belowOperand (below.map readChains)

def readNegation (g : Grammar) : Nat → Reader Condition
  | 0 => readNegationOver g (Operand.read g 0) none none
  | room + 1 =>
    readNegationOver g (Operand.read g (room + 1)) (some (Operand.read g room))
      (some (readNegation g room))

/-- A condition with at most `room` levels of nesting. -/
def read (g : Grammar) (room : Nat) : Reader Condition := readChains (readNegation g room)

end Condition

/-! ## Complete texts -/

namespace Grammar

/-- Refuses whatever follows a complete phrase. -/
def expectFinish : Reader Unit := do
  let kind ← peekKind
  if kind ≠ .finish then
    failHere "end of input" (hintFor kind)

/-- Reads all tokens as one condition. -/
def condition (g : Grammar) (tokens : List Token) : Except SyntaxError Condition :=
  (do
    let c ← Condition.read g g.dialect.maxDepth
    expectFinish
    return c : Reader Condition).run' (.ofTokens g.source tokens)

/-- Reads all tokens as one operand. -/
def operand (g : Grammar) (tokens : List Token) : Except SyntaxError Operand :=
  (do
    let o ← Operand.read g g.dialect.maxDepth
    expectFinish
    return o : Reader Operand).run' (.ofTokens g.source tokens)

end Grammar

end FeatureFilter
