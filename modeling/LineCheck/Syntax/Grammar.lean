import LineCheck.Syntax.Name
import LineCheck.Syntax.TokenParser
import LineCheck.Syntax.Statement

/-!
# LineCheck.Syntax.Grammar — the statements that a line of tokens can make

Where `TYPE`, `VARIABLE`, `FUNCTION` and `VALUE` are single tokens, the lines are

    final? TYPE VARIABLE (= VALUE)? (, VARIABLE (= VALUE)?)* ;      every variable of a final line has a value
    VARIABLE = VALUE (, VARIABLE = VALUE)* ;
    void FUNCTION ( (final? TYPE VARIABLE (, final? TYPE VARIABLE)*)? ) {
    FUNCTION ( (VALUE (, VALUE)*)? ) ;
    if ( OPERAND ((&& | ||) OPERAND)* ) {                           an operand is a value, but no quoted literal
    while ( OPERAND ((&& | ||) OPERAND)* ) {
    return ;
    }

The first token of a line decides which of them it is to be, except that a name may start a call or an assignment: it
starts a call if an opening parenthesis follows it.
-/

namespace LineCheck

/-! ### What single tokens say -/

namespace Token

/-- The variable that the token names. -/
def variableName? (t : Token) : Option String :=
  if t.kind = .identifier ∧ isVariableName t.text = true then some t.text else none

/-- The function that the token names. -/
def functionName? (t : Token) : Option String :=
  if t.kind = .identifier ∧ isFunctionName t.text = true then some t.text else none

/-- The value that the token stands for. -/
def value? (t : Token) : Option Value :=
  match t.kind with
  | .integer => some (.literal (.int t.text))
  | .double => some (.literal (.double t.text))
  | .keyword (.truth b) => some (.literal (.boolean b))
  | .char => some (.literal (.char t.text))
  | .string => some (.literal (.string t.text))
  | .identifier => if isVariableName t.text then some (.name t.text) else none
  | _ => none

end Token

/-- The connective that a token stands for. -/
def Connective.ofKind? : TokenKind → Option Connective
  | .symbol .and => some .and
  | .symbol .or => some .or
  | _ => none

namespace Grammar

open TokenParser

/-! ### The parts of a line -/

/-- A word that names a type. -/
def type : TokenParser Ty :=
  take .type fun t => t.kind.type?

/-- The name of a variable. -/
def variableName : TokenParser String :=
  take .variableName Token.variableName?

/-- The name of a function. -/
def functionName : TokenParser String :=
  take .functionName Token.functionName?

/-- A value. -/
def value : TokenParser Value :=
  take .value Token.value?

/-- A value that may stand in a condition. -/
def operand : TokenParser Value := do
  match ← upcoming with
  | .string :: _ => fail .booleanOperand
  | .char :: _ => fail .booleanOperand
  | _ => value

/-- A variable with its first value, which only a declaration that is not final may leave out. -/
def declarator (isFinal : Bool) : TokenParser Declarator := do
  let name ← variableName
  if isFinal then
    one (.symbol .assign)
    return ⟨name, some (← value)⟩
  else if ← optional (.symbol .assign) then
    return ⟨name, some (← value)⟩
  else
    return ⟨name, none⟩

/-- A variable and its new value. -/
def assignment : TokenParser Assignment := do
  let name ← variableName
  one (.symbol .assign)
  return ⟨name, ← value⟩

/-- A parameter. -/
def param : TokenParser Param := do
  let isFinal ← optional (.keyword .final)
  let ty ← type
  return ⟨← variableName, ty, isFinal⟩

/-- Items with commas between them, in parentheses; perhaps none. -/
def parenthesised {α : Type} (item : TokenParser α) : TokenParser (List α) := do
  one (.symbol .leftParen)
  let items ← match ← upcoming with
    | .symbol .rightParen :: _ => pure []
    | _ => commaList item
  one (.symbol .rightParen)
  return items

/-! ### Whole lines -/

/-- The declaration of one variable or more. -/
def declaration : TokenParser Declaration := do
  let isFinal ← optional (.keyword .final)
  let ty ← type
  let declarators ← commaList (declarator isFinal)
  one (.symbol .semicolon)
  return ⟨isFinal, ty, declarators⟩

/-- One assignment or more. -/
def assignments : TokenParser (List Assignment) := do
  let pairs ← commaList assignment
  one (.symbol .semicolon)
  return pairs

/-- The first line of a function. -/
def header : TokenParser Header := do
  one (.keyword .void)
  let name ← functionName
  let params ← parenthesised param
  one (.symbol .leftBrace)
  return ⟨name, params⟩

/-- A call. -/
def call : TokenParser Call := do
  let name ← functionName
  let args ← parenthesised value
  one (.symbol .semicolon)
  return ⟨name, args⟩

/-- What follows the word before a condition. -/
def condition : TokenParser Condition := do
  one (.symbol .leftParen)
  let first ← operand
  let rest ← links Connective.ofKind? operand
  one (.symbol .rightParen)
  one (.symbol .leftBrace)
  return ⟨first, rest⟩

/-- A statement, told from the others by the first two tokens. -/
def statement : TokenParser Statement := do
  match ← upcoming with
  | .keyword .final :: _ => return .declaration (← declaration)
  | .keyword (.type _) :: _ => return .declaration (← declaration)
  | .keyword .void :: _ => return .function (← header)
  | .keyword (.guard word) :: _ =>
    one (.keyword (.guard word))
    return .guard word (← condition)
  | .keyword .return :: _ =>
    one (.keyword .return)
    one (.symbol .semicolon)
    return .return
  | .symbol .rightBrace :: _ =>
    one (.symbol .rightBrace)
    return .closeBrace
  | .identifier :: .symbol .leftParen :: _ => return .call (← call)
  | .identifier :: _ => return .assignment (← assignments)
  | _ => fail .statement

/-- A statement that takes up all of the line. -/
def line : TokenParser Statement := do
  let s ← statement
  endOfLine
  return s

end Grammar

end LineCheck
