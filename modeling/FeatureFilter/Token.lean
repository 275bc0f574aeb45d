import FeatureFilter.Text.Quoted
import FeatureFilter.Text.Span
import FeatureFilter.Token.Word

/-!
# Tokens

The pieces of a filter text: words, numbers, quoted strings and names, marks, and the end of the
text. A token keeps the characters it was read from and where they stand.
-/

namespace FeatureFilter

inductive Mark where
  | equal
  | notEqual
  | less
  | lessOrEqual
  | greater
  | greaterOrEqual
  | bang
  | plus
  | minus
  | star
  | slash
  | leftParen
  | rightParen
  | leftBracket
  | rightBracket
  | comma
  | semicolon
  deriving DecidableEq, Repr

namespace Mark

def text : Mark → String
  | equal => "="
  | notEqual => "<>"
  | less => "<"
  | lessOrEqual => "<="
  | greater => ">"
  | greaterOrEqual => ">="
  | bang => "!"
  | plus => "+"
  | minus => "-"
  | star => "*"
  | slash => "/"
  | leftParen => "("
  | rightParen => ")"
  | leftBracket => "["
  | rightBracket => "]"
  | comma => ","
  | semicolon => ";"

end Mark

inductive TokenKind where
  | keyword (k : Keyword)
  /-- A number as it is written. -/
  | number (numeral : String)
  /-- A string without its quotes. -/
  | string (content : String)
  /-- A word, or words with points between them. -/
  | identifier (name : String)
  /-- A name without its quotes. -/
  | quotedIdentifier (name : String)
  | mark (m : Mark)
  | finish
  deriving DecidableEq, Repr

namespace TokenKind

/-- The usual way to write the token. -/
def text : TokenKind → String
  | keyword k => k.text
  | number numeral => numeral
  | string content => Quoted.writeText '\'' content
  | identifier name => name
  | quotedIdentifier name => Quoted.writeText '"' name
  | mark m => m.text
  | finish => "end of input"

def isComparison : TokenKind → Bool
  | mark .equal | mark .notEqual | mark .less | mark .lessOrEqual | mark .greater
  | mark .greaterOrEqual => true
  | _ => false

end TokenKind

/-- A piece of a text. -/
structure Token where
  kind : TokenKind
  /-- The characters it was read from. -/
  lexeme : String
  span : Span
  deriving DecidableEq, Repr

namespace Token

def finishAt (p : Position) : Token := ⟨.finish, "", .between p p⟩

def describe (t : Token) : String :=
  match t.kind with
  | .finish => "end of input"
  | _ => "'" ++ t.lexeme ++ "'"

end Token

end FeatureFilter
