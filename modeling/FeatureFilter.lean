import FeatureFilter.Calendar.Date
import FeatureFilter.Calendar.Timestamp
import FeatureFilter.Color
import FeatureFilter.Compiler
import FeatureFilter.Dialect
import FeatureFilter.Dialect.Json
import FeatureFilter.Filter
import FeatureFilter.Filter.Json
import FeatureFilter.Filter.Maker
import FeatureFilter.Filter.Operators
import FeatureFilter.Filter.Text
import FeatureFilter.Function.Catalog
import FeatureFilter.Function.Json
import FeatureFilter.Function.Signature
import FeatureFilter.Geometry
import FeatureFilter.Geometry.Json
import FeatureFilter.Geometry.Wkt
import FeatureFilter.Json
import FeatureFilter.Json.Number
import FeatureFilter.Json.Reader
import FeatureFilter.Json.Text
import FeatureFilter.Number.Binary64
import FeatureFilter.Number.Decimal
import FeatureFilter.Number.Shortest
import FeatureFilter.Phrase
import FeatureFilter.Phrase.Condition
import FeatureFilter.Phrase.Literal
import FeatureFilter.Phrase.Meaning
import FeatureFilter.Phrase.Operand
import FeatureFilter.Phrase.Reader
import FeatureFilter.Proofs.Calendar
import FeatureFilter.Proofs.Calendar.Codec
import FeatureFilter.Proofs.Calendar.Days
import FeatureFilter.Proofs.Calendar.Lenient
import FeatureFilter.Proofs.Calendar.Naive
import FeatureFilter.Proofs.Color
import FeatureFilter.Proofs.Compiler.Colors
import FeatureFilter.Proofs.Compiler.Compiled
import FeatureFilter.Proofs.Compiler.Composition
import FeatureFilter.Proofs.Compiler.Encoding
import FeatureFilter.Proofs.Compiler.Envelopes
import FeatureFilter.Proofs.Compiler.Furthest
import FeatureFilter.Proofs.Compiler.Geometries
import FeatureFilter.Proofs.Compiler.Grouping
import FeatureFilter.Proofs.Compiler.Height
import FeatureFilter.Proofs.Compiler.Integers
import FeatureFilter.Proofs.Compiler.Intervals
import FeatureFilter.Proofs.Compiler.Legacy
import FeatureFilter.Proofs.Compiler.Numbering
import FeatureFilter.Proofs.Compiler.Numerals
import FeatureFilter.Proofs.Compiler.Outlines
import FeatureFilter.Proofs.Compiler.Permissive
import FeatureFilter.Proofs.Compiler.Places
import FeatureFilter.Proofs.Compiler.Properties
import FeatureFilter.Proofs.Compiler.Standard
import FeatureFilter.Proofs.Compiler.Unended
import FeatureFilter.Proofs.Descent.Budget
import FeatureFilter.Proofs.Descent.Conditions
import FeatureFilter.Proofs.Descent.Discipline
import FeatureFilter.Proofs.Descent.Loops
import FeatureFilter.Proofs.Descent.Machine
import FeatureFilter.Proofs.Descent.Operands
import FeatureFilter.Proofs.Descent.Procedures
import FeatureFilter.Proofs.Descent.Tracking
import FeatureFilter.Proofs.Filter.Equality
import FeatureFilter.Proofs.Filter.Folding
import FeatureFilter.Proofs.Filter.Forest
import FeatureFilter.Proofs.Filter.Interpretation
import FeatureFilter.Proofs.Filter.Json
import FeatureFilter.Proofs.Filter.Nesting
import FeatureFilter.Proofs.Filter.Nuances
import FeatureFilter.Proofs.Filter.Pieces
import FeatureFilter.Proofs.Filter.Room
import FeatureFilter.Proofs.Filter.RoundTrip
import FeatureFilter.Proofs.Filter.Spine
import FeatureFilter.Proofs.Filter.Stable
import FeatureFilter.Proofs.Filter.Tree
import FeatureFilter.Proofs.Filter.Verdict
import FeatureFilter.Proofs.Function.Table
import FeatureFilter.Proofs.Geometry.Bounds
import FeatureFilter.Proofs.Geometry.Drawn
import FeatureFilter.Proofs.Geometry.Exact
import FeatureFilter.Proofs.Geometry.Grammar
import FeatureFilter.Proofs.Geometry.Json
import FeatureFilter.Proofs.Geometry.Nuances
import FeatureFilter.Proofs.Geometry.Reads
import FeatureFilter.Proofs.Geometry.RoundTrip
import FeatureFilter.Proofs.Geometry.Rules
import FeatureFilter.Proofs.Geometry.Tokens
import FeatureFilter.Proofs.Json.Reading
import FeatureFilter.Proofs.Number.Digits
import FeatureFilter.Proofs.Number.Equality
import FeatureFilter.Proofs.Number.Nearest
import FeatureFilter.Proofs.Number.Numeral
import FeatureFilter.Proofs.Number.Order
import FeatureFilter.Proofs.Number.Resolved
import FeatureFilter.Proofs.Number.Rounded
import FeatureFilter.Proofs.Number.Rounding
import FeatureFilter.Proofs.Number.Shortest
import FeatureFilter.Proofs.Number.Text
import FeatureFilter.Proofs.Number.Written
import FeatureFilter.Proofs.Phrase.Attempt
import FeatureFilter.Proofs.Phrase.Complaints
import FeatureFilter.Proofs.Phrase.Condition
import FeatureFilter.Proofs.Phrase.Factor
import FeatureFilter.Proofs.Phrase.Landmark
import FeatureFilter.Proofs.Phrase.Meaning
import FeatureFilter.Proofs.Phrase.Numbering
import FeatureFilter.Proofs.Phrase.Operand
import FeatureFilter.Proofs.Phrase.Outcome
import FeatureFilter.Proofs.Phrase.Outline
import FeatureFilter.Proofs.Phrase.Predicate
import FeatureFilter.Proofs.Phrase.Shape
import FeatureFilter.Proofs.Phrase.Spans
import FeatureFilter.Proofs.Phrase.Unended
import FeatureFilter.Proofs.Phrase.Violations
import FeatureFilter.Proofs.Syntax.Bare
import FeatureFilter.Proofs.Syntax.Conditions
import FeatureFilter.Proofs.Syntax.Denotation
import FeatureFilter.Proofs.Syntax.Factors
import FeatureFilter.Proofs.Syntax.Groups
import FeatureFilter.Proofs.Syntax.Height
import FeatureFilter.Proofs.Syntax.Operands
import FeatureFilter.Proofs.Syntax.Outlines
import FeatureFilter.Proofs.Syntax.Parentheses
import FeatureFilter.Proofs.Syntax.Precedence
import FeatureFilter.Proofs.Syntax.Predicates
import FeatureFilter.Proofs.Syntax.Rules
import FeatureFilter.Proofs.Syntax.Shapes
import FeatureFilter.Proofs.Syntax.Spelling
import FeatureFilter.Proofs.Syntax.Taking
import FeatureFilter.Proofs.Syntax.Texts
import FeatureFilter.Proofs.Syntax.Trees
import FeatureFilter.Proofs.Syntax.Widening
import FeatureFilter.Proofs.Text.Lines
import FeatureFilter.Proofs.Text.Slice
import FeatureFilter.Proofs.Token.Cutting
import FeatureFilter.Proofs.Token.Gluing
import FeatureFilter.Proofs.Token.Lexed
import FeatureFilter.Proofs.Token.Lexeme
import FeatureFilter.Proofs.Token.Name
import FeatureFilter.Proofs.Token.Numeral
import FeatureFilter.Proofs.Token.Piece
import FeatureFilter.Proofs.Token.Places
import FeatureFilter.Proofs.Token.Quoting
import FeatureFilter.Proofs.Token.Spaced
import FeatureFilter.Text.Caseless
import FeatureFilter.Text.Letter
import FeatureFilter.Text.Lowercase
import FeatureFilter.Text.Quoted
import FeatureFilter.Text.Ranges
import FeatureFilter.Text.Slice
import FeatureFilter.Text.Span
import FeatureFilter.Token
import FeatureFilter.Token.Lexer
import FeatureFilter.Token.Word
