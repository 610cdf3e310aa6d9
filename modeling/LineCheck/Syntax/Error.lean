import LineCheck.Token.Line

/-!
# LineCheck.Syntax.Error — why a line is no statement

An error says what the grammar wanted and which token stood there instead.
-/

namespace LineCheck

/-- What the grammar wants at a place: a token of one kind, or one of the phrases below. -/
inductive Expected where
  | kind (kind : TokenKind)
  | type
  | variableName
  | functionName
  | value
  | booleanOperand
  | statement
  | other (phrase : String)
  deriving DecidableEq, Repr

/-- How a message names what was wanted. -/
def Expected.text : Expected → String
  | kind k => k.label
  | type => "type"
  | variableName => "variable name"
  | functionName => "function name"
  | value => "value"
  | booleanOperand => "boolean operand"
  | statement => "statement"
  | other phrase => phrase

/-- The first place of a line where no statement goes on: what was wanted there, and the token that was found. -/
structure ParseError where
  expected : Expected
  found : TokenKind
  span : Span
  deriving DecidableEq, Repr

namespace ParseError

/-- The error at a token. -/
def atToken (expected : Expected) (t : Token) : ParseError :=
  ⟨expected, t.kind, t.span⟩

/-- The error in words. -/
def message (e : ParseError) : String :=
  "Expected '" ++ e.expected.text ++ "', but found '" ++ e.found.label ++ "'"

end ParseError

end LineCheck
