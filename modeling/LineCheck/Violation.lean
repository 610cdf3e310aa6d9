/-!
# LineCheck.Violation — the rules of the language that a program can break

A `Violation` is the rule; a `Rejection` is the rule together with the number of the line that breaks it.  Only blocks
that are not balanced have no line, because they show at the end of the program.
-/

namespace LineCheck

/-- A rule that a program breaks. -/
inductive Violation where
  | invalidSyntax
  | invalidAssignment
  | invalidBooleanExpression
  | invalidParameterList
  | invalidScopeClosing
  | invalidScopeFunctionDeclaration
  | invalidActionInGlobalScope
  | lastLineNotReturn
  | variableExists
  | variableNotFound
  | changeFinal
  | functionExists
  | functionNotFound
  deriving DecidableEq, Repr

namespace Violation

/-- The rule in words. -/
def message : Violation → String
  | invalidSyntax => "Invalid syntax"
  | invalidAssignment => "Invalid value assignment"
  | invalidBooleanExpression => "Invalid boolean expression"
  | invalidParameterList => "Invalid parameter list in function call"
  | invalidScopeClosing => "The scopes closed doesn't match the scopes opened"
  | invalidScopeFunctionDeclaration => "Function declaration inside a function is not allowed"
  | invalidActionInGlobalScope => "If or while statement or method call or return in global scope is not allowed"
  | lastLineNotReturn => "Last line in method must be a return statement"
  | variableExists => "Variable already exists"
  | variableNotFound => "Variable not found"
  | changeFinal => "Can't change a final variable value"
  | functionExists => "Function already exists"
  | functionNotFound => "Function not found"

/-- The name of the rule in a report. -/
def code : Violation → String
  | invalidSyntax => "InvalidSyntax"
  | invalidAssignment => "InvalidAssignment"
  | invalidBooleanExpression => "InvalidBooleanExpression"
  | invalidParameterList => "InvalidParameterList"
  | invalidScopeClosing => "InvalidScopeClosing"
  | invalidScopeFunctionDeclaration => "InvalidScopeFunctionDeclaration"
  | invalidActionInGlobalScope => "InvalidActionInGlobalScope"
  | lastLineNotReturn => "LastLineNotReturn"
  | variableExists => "VariableExists"
  | variableNotFound => "VariableNotFound"
  | changeFinal => "ChangeFinal"
  | functionExists => "FunctionExists"
  | functionNotFound => "FunctionNotFound"

/-- All rules. -/
def all : List Violation :=
  [invalidSyntax, invalidAssignment, invalidBooleanExpression, invalidParameterList, invalidScopeClosing,
    invalidScopeFunctionDeclaration, invalidActionInGlobalScope, lastLineNotReturn, variableExists, variableNotFound,
    changeFinal, functionExists, functionNotFound]

end Violation

/-- Why a program is refused: the rule that it breaks, and the line that breaks it. -/
structure Rejection where
  line : Option Nat
  violation : Violation
  deriving DecidableEq, Repr

namespace Rejection

/-- A rule broken by a line. -/
def atLine (line : Nat) (v : Violation) : Rejection :=
  ⟨some line, v⟩

/-- A rule broken by the program as a whole. -/
def unanchored (v : Violation) : Rejection :=
  ⟨none, v⟩

/-- The blocks that are closed are not those that were opened. -/
def unbalanced : Rejection :=
  unanchored .invalidScopeClosing

/-- The rejection in words. -/
def message (r : Rejection) : String :=
  match r.line with
  | some n => "In line " ++ toString n ++ ": " ++ r.violation.message
  | none => r.violation.message

end Rejection

end LineCheck
