import FeatureFilter.Filter
import FeatureFilter.Text.Quoted
import FeatureFilter.Token.Word

/-!
# The text of a filter tree

Writes values, expressions and filters in the filter language. Parentheses are written only where
operators would otherwise bind differently; chains of `AND` and `OR` inside a chain keep theirs.
-/

namespace FeatureFilter

def stringText (s : String) : String := Quoted.writeText '\'' s

/-- A property path: its segments with points between them when each can stand without quotes,
otherwise the whole path as one quoted name. -/
def propertyText (path : String) : String :=
  if (splitAtChar '/' path.toList).all isPlainName then
    String.ofList (path.toList.map fun c => if c = '/' then '.' else c)
  else Quoted.writeText '"' path

def grouped (s : String) : String := "(" ++ s ++ ")"

/-- Whether an operand of an operator needs parentheses. Operators of equal strength group to the
left, so that the right operand needs them at equal strength, too. -/
def needsGroup (parent : ArithmeticOp) (onRight : Bool) : Expression → Bool
  | .arithmetic op _ _ =>
    if onRight then op.precedence ≤ parent.precedence else op.precedence < parent.precedence
  | _ => false

mutual

def Value.text : Value → String
  | .long n => toString n.toInt
  | .double x => Layout.literal.text x
  | .string s => stringText s
  | .boolean b => if b then "TRUE" else "FALSE"
  | .date d => "DATE(" ++ stringText (String.ofList d.text) ++ ")"
  | .timestamp t => "TIMESTAMP(" ++ stringText (String.ofList t.text) ++ ")"
  | .interval start stop => "INTERVAL(" ++ start.text ++ ", " ++ stop.text ++ ")"
  | .geometry g => g.text
  | .color c => stringText c.text

def Expression.text : Expression → String
  | .literal v => v.text
  | .property path => propertyText path
  | .call name args => name ++ grouped (joined ", " (Expression.textAll args))
  | .arithmetic op left right =>
    let leftText := if needsGroup op false left then grouped left.text else left.text
    let rightText := if needsGroup op true right then grouped right.text else right.text
    leftText ++ " " ++ op.symbol ++ " " ++ rightText

def Expression.textAll : List Expression → List String
  | [] => []
  | e :: es => e.text :: Expression.textAll es

end

def Interval.text (i : Interval) : String :=
  "INTERVAL(" ++ i.start.text ++ ", " ++ i.stop.text ++ ")"

namespace Filter

def equality? : Filter → Option (Expression × Expression)
  | compare .eq left right => some (left, right)
  | _ => none

/-- The right sides of equalities whose left side is equal to `left`. -/
def choices? (left : Expression) : List Filter → Option (List Expression)
  | [] => some []
  | f :: fs =>
    match f.equality? with
    | some (l, r) => if l == left then (choices? left fs).map (r :: ·) else none
    | none => none

/-- The clauses of an `any` as value and choices of an `IN` list: they are all equalities, and share
their left side. -/
def inList? (clauses : List Filter) : Option (Expression × List Expression) :=
  match clauses with
  | [] => none
  | f :: _ => f.equality?.bind fun (left, _) => (choices? left clauses).map (left, ·)

def comparisonText (op : ComparisonOp) (left right : Expression) : String :=
  left.text ++ " " ++ op.symbol ++ " " ++ right.text

def betweenText (negated : Bool) (value low high : Expression) : String :=
  value.text ++ (if negated then " NOT BETWEEN " else " BETWEEN ") ++ low.text ++ " AND " ++
    high.text

def likeText (negated : Bool) (value : Expression) (pattern : String) (matchCase : Bool) : String :=
  value.text ++ (if negated then " NOT" else "") ++ (if matchCase then " LIKE " else " ILIKE ") ++
    stringText pattern

def inText (negated : Bool) (value : Expression) (choices : List Expression) : String :=
  value.text ++ (if negated then " NOT IN " else " IN ") ++
    grouped (joined ", " (Expression.textAll choices))

def callText (name : String) (left right : Expression) : String :=
  name ++ grouped (left.text ++ ", " ++ right.text)

/-- Whether a clause of a chain needs parentheses: chains do, `IN` lists do not. -/
def isChain : Filter → Bool
  | all _ => true
  | any clauses => (inList? clauses).isNone
  | _ => false

mutual

/-- The text of a filter. Chains without clauses are written as a comparison that is true, or
false. -/
def text : Filter → String
  | compare op left right => comparisonText op left right
  | between value low high => betweenText false value low high
  | like value pattern matchCase => likeText false value pattern matchCase
  | isNull value => value.text ++ " IS NULL"
  | spatial op left right => callText op.functionName left right
  | temporal op left right => callText op.functionName left right
  | all clauses => if clauses.isEmpty then "1 = 1" else joined " AND " (clauseTexts clauses)
  | any clauses =>
    if clauses.isEmpty then "1 = 0"
    else match inList? clauses with
      | some (value, choices) => inText false value choices
      | none => joined " OR " (clauseTexts clauses)
  | negation clause => negationText clause

def negationText : Filter → String
  | between value low high => betweenText true value low high
  | like value pattern matchCase => likeText true value pattern matchCase
  | isNull value => value.text ++ " IS NOT NULL"
  | all clauses =>
    if clauses.isEmpty then "NOT 1 = 1"
    else "NOT " ++ grouped (joined " AND " (clauseTexts clauses))
  | any clauses =>
    if clauses.isEmpty then "NOT 1 = 0"
    else match inList? clauses with
      | some (value, choices) => inText true value choices
      | none => "NOT " ++ grouped (joined " OR " (clauseTexts clauses))
  | compare op left right => "NOT " ++ comparisonText op left right
  | spatial op left right => "NOT " ++ callText op.functionName left right
  | temporal op left right => "NOT " ++ callText op.functionName left right
  | negation clause => "NOT " ++ negationText clause

def clauseTexts : List Filter → List String
  | [] => []
  | f :: fs => (if f.isChain then grouped f.text else f.text) :: clauseTexts fs

end

end Filter

end FeatureFilter
