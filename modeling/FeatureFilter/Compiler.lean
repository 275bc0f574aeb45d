import FeatureFilter.Phrase.Condition
import FeatureFilter.Phrase.Meaning
import FeatureFilter.Token.Lexer

/-!
# Compiling filters

From text to filter: the text is split into tokens, the tokens are read as a phrase, and the phrase
is given its meaning. The first of these to fail says what is wrong and where.
-/

namespace FeatureFilter

inductive CompileError where
  | lexical (e : LexError)
  | syntactic (e : SyntaxError)
  | semantic (e : MeaningError)
  deriving DecidableEq, Repr

namespace CompileError

def span : CompileError → Span
  | lexical e => e.span
  | syntactic e => e.span
  | semantic e => e.span

def placeText (s : Span) : String :=
  "line " ++ toString s.line ++ ", column " ++ toString s.column

def message : CompileError → String
  | lexical e => "Lex error at " ++ placeText e.span ++ ": " ++ e.problem.message
  | syntactic e =>
    "Parse error at " ++ placeText e.span ++ ": expected " ++ e.expected ++ ", found " ++ e.found ++
      (match e.hint with
        | some hint => " (" ++ hint ++ ")"
        | none => "")
  | semantic e => "Semantic error at " ++ placeText e.span ++ ": " ++ e.problem.message

/-- The message, the line of the text that it is about, and a caret under the column. -/
def report (e : CompileError) (source : String) : String :=
  let line := ((linesOf source.toList)[e.span.line - 1]?).getD []
  e.message ++ "\n" ++ String.ofList line ++ "\n" ++
    String.ofList (List.replicate (e.span.column - 1) ' ') ++ "^"

end CompileError

/-- What compiling depends on besides the text. -/
structure Compiler where
  dialect : Dialect
  vocabulary : Vocabulary
  readGeometry : String → Except Wkt.Error Geometry

namespace Compiler

def standard : Compiler := ⟨.cql2, ⟨.standard, false⟩, Wkt.read⟩

def grammar (c : Compiler) (source : String) : Grammar := ⟨c.dialect, c.readGeometry, source⟩

def phrase (read : Grammar → List Token → Except SyntaxError α) (c : Compiler) (text : String) :
    Except CompileError α :=
  match tokenize text with
  | .error e => .error (.lexical e)
  | .ok tokens => (read (c.grammar text) tokens).mapError .syntactic

def condition (c : Compiler) (text : String) : Except CompileError Condition :=
  c.phrase Grammar.condition text

def operand (c : Compiler) (text : String) : Except CompileError Operand :=
  c.phrase Grammar.operand text

variable {m : Type → Type} {ε φ : Type} [Monad m]

def filterWith (c : Compiler) (mk : Maker m ε φ) (text : String) : m (Except CompileError φ) :=
  match c.condition text with
  | .error e => return .error e
  | .ok condition => do
    let result ← (condition.make c.vocabulary mk).run
    return result.mapError .semantic

def expressionWith (c : Compiler) (mk : Maker m ε φ) (text : String) : m (Except CompileError ε) :=
  match c.operand text with
  | .error e => return .error e
  | .ok operand => do
    let result ← (operand.make c.vocabulary mk).run
    return result.mapError .semantic

/-- Compiles a text to a filter. -/
def filter (c : Compiler) (text : String) : Except CompileError Filter :=
  (c.filterWith .tree text : Id _)

/-- Compiles a text to an expression. -/
def expression (c : Compiler) (text : String) : Except CompileError Expression :=
  (c.expressionWith .tree text : Id _)

end Compiler

end FeatureFilter
