import LineCheck.Pass.Traced
import LineCheck.Rules

/-!
# LineCheck.Pass.Binding — lines that declare variables or give them values

Both passes read such lines, outside functions and inside them.  The items of a line are dealt with from left to
right, and what was done before an item that breaks a rule stays done.
-/

namespace LineCheck

/-- Declare one variable of line `number`. -/
def Declaration.performOne (d : Declaration) (number : Nat) (scopes : Scopes) (v : Declarator) :
    Traced (Stop Scopes) Scopes := do
  let next ← Traced.proceed number (v.declareIn d.isFinal d.ty scopes)
  Traced.emit (.declared number d.ty v.name)
  return next

/-- Declare the variables of line `number` one after the other. -/
def Declaration.perform (d : Declaration) (number : Nat) (scopes : Scopes) : Traced (Stop Scopes) Scopes :=
  d.declarators.foldlM (d.performOne number) scopes

/-- Make one assignment of line `number`. -/
def performOne (number : Nat) (scopes : Scopes) (a : Assignment) : Traced (Stop Scopes) Scopes :=
  Traced.proceed number (a.applyTo scopes)

/-- Make the assignments of line `number` one after the other. -/
def performAll (assignments : List Assignment) (number : Nat) (scopes : Scopes) : Traced (Stop Scopes) Scopes :=
  assignments.foldlM (performOne number) scopes

/-- Declare one parameter of line `number`. -/
def declareParam (number : Nat) (scopes : Scopes) (p : Param) : Traced (Stop Scopes) Scopes :=
  Traced.proceed number (p.declareIn scopes)

/-- Declare the parameters of the header in line `number` one after the other. -/
def Header.declareParams (h : Header) (number : Nat) (scopes : Scopes) : Traced (Stop Scopes) Scopes :=
  h.params.foldlM (declareParam number) scopes

end LineCheck
