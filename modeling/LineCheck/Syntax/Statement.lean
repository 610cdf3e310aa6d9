import LineCheck.Token.Kind

/-!
# LineCheck.Syntax.Statement — what a line can say

Each line of a program is one statement.  Blocks are not nested in the syntax: a header line opens one and a line with
a closing brace ends it.  Literals keep the text of their token, quotes included.
-/

namespace LineCheck

/-- A value written down, with its text. -/
inductive Literal where
  | int (raw : String)
  | double (raw : String)
  | boolean (value : Bool)
  | char (raw : String)
  | string (raw : String)
  deriving DecidableEq, Repr

/-- What may stand where a value is wanted: a literal, or the name of a variable. -/
inductive Value where
  | literal (literal : Literal)
  | name (name : String)
  deriving DecidableEq, Repr

/-- A variable of a declaration, with its first value if one is given. -/
structure Declarator where
  name : String
  init : Option Value
  deriving DecidableEq, Repr

/-- Variables of one type that are declared on one line. -/
structure Declaration where
  isFinal : Bool
  ty : Ty
  declarators : List Declarator
  deriving DecidableEq, Repr

/-- A new value for a variable. -/
structure Assignment where
  name : String
  value : Value
  deriving DecidableEq, Repr

/-- A parameter of a function. -/
structure Param where
  name : String
  ty : Ty
  isFinal : Bool
  deriving DecidableEq, Repr

/-- The first line of a function. -/
structure Header where
  name : String
  params : List Param
  deriving DecidableEq, Repr

/-- A call of a function. -/
structure Call where
  name : String
  args : List Value
  deriving DecidableEq, Repr

/-- What stands between two operands of a condition. -/
inductive Connective where
  | and
  | or
  deriving DecidableEq, Repr

/-- A condition: an operand, and further operands each behind a connective. -/
structure Condition where
  first : Value
  rest : List (Connective × Value)
  deriving DecidableEq, Repr

/-- The statement that a line makes. -/
inductive Statement where
  | blank
  | comment
  | declaration (declaration : Declaration)
  | assignment (assignments : List Assignment)
  | function (header : Header)
  | call (call : Call)
  | guard (word : GuardWord) (condition : Condition)
  | return
  | closeBrace
  deriving DecidableEq, Repr

/-- The sort of a line, told apart by its statement. -/
inductive LineKind where
  | blank
  | comment
  | finalDeclaration
  | declaration
  | assignment
  | function
  | call
  | guard (word : GuardWord)
  | return
  | closeBrace
  deriving DecidableEq, Repr

namespace Value

/-- The text of the value, which is recorded as the value of the variable that it is stored in. -/
def text : Value → String
  | name n => n
  | literal (.boolean true) => "true"
  | literal (.boolean false) => "false"
  | literal (.int raw) => raw
  | literal (.double raw) => raw
  | literal (.char raw) => raw
  | literal (.string raw) => raw

instance : ToString Value := ⟨text⟩

end Value

namespace Condition

/-- The operands in order. -/
def operands (c : Condition) : List Value :=
  c.first :: c.rest.map Prod.snd

/-- The connectives in order. -/
def connectives (c : Condition) : List Connective :=
  c.rest.map Prod.fst

/-- There is one operand more than there are connectives. -/
theorem length_operands (c : Condition) : c.operands.length = c.connectives.length + 1 := by
  simp [operands, connectives]

end Condition

namespace Statement

/-- The sort of line that makes the statement. -/
def kind : Statement → LineKind
  | blank => .blank
  | comment => .comment
  | declaration d => if d.isFinal then .finalDeclaration else .declaration
  | assignment _ => .assignment
  | function _ => .function
  | call _ => .call
  | guard w _ => .guard w
  | .return => .return
  | closeBrace => .closeBrace

/-- The statement says nothing: a blank line or a comment. -/
def isSilent : Statement → Bool
  | blank => true
  | comment => true
  | _ => false

end Statement

namespace LineKind

/-- How messages name the sort of line. -/
def title : LineKind → String
  | blank => "Blank"
  | comment => "Comment"
  | finalDeclaration => "Final Variable Declaration"
  | declaration => "Non-Final Variable Declaration"
  | assignment => "Variable Assignment"
  | function => "Function Declaration"
  | call => "Function Call"
  | guard .ifWord => "If Statement"
  | guard .whileWord => "While Statement"
  | .return => "Return Statement"
  | closeBrace => "Closing Bracket"

end LineKind

end LineCheck
