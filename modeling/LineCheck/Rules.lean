import LineCheck.Symbol.Functions
import LineCheck.Typing

/-!
# LineCheck.Rules — when a statement is legal, and what it does to the variables in sight

Every rule looks at the variables in sight and at the functions of the program.  What changes the variables leaves its
result, which may be a rule that is broken, beside the variables as they are afterwards; a rule that is broken leaves
them as they were.  Line numbers and blocks are no matter of these rules.

Several variables of one declaration, and several assignments of one line, are dealt with one by one from left to
right: each sees what the ones before it did.
-/

namespace LineCheck

/-- A new variable: its first value has to fit its type, and its name has to be new in the innermost table. -/
def Declarator.declareIn (v : Declarator) (isFinal : Bool) (ty : Ty) (scopes : Scopes) :
    Except Violation Unit × Scopes :=
  if v.init.all (·.fits ty scopes) then scopes.declare ⟨v.name, ty, v.init.map Value.text, isFinal⟩
  else (.error .invalidAssignment, scopes)

/-- A new value: the name has to mean a variable, which is not final and whose type the value fits. -/
def Assignment.applyTo (a : Assignment) (scopes : Scopes) : Except Violation Unit × Scopes :=
  match scopes.resolve a.name with
  | none => (.error .variableNotFound, scopes)
  | some v =>
    if v.isFinal then (.error .changeFinal, scopes)
    else if a.value.fits v.ty scopes then scopes.assign a.name a.value.text
    else (.error .invalidAssignment, scopes)

/-- A parameter is a new variable of the function's own table. -/
def Param.declareIn (p : Param) (scopes : Scopes) : Except Violation Unit × Scopes :=
  scopes.declare (.ofParam p)

/-- There are as many values as parameters, and each value fits the type of its parameter. -/
def fitAll (params : List Param) (args : List Value) (scopes : Scopes) : Bool :=
  match params, args with
  | [], [] => true
  | p :: ps, a :: as => a.fits p.ty scopes && fitAll ps as scopes
  | _, _ => false

/-- A call has to name a function and to give it what it takes. -/
def Call.check (c : Call) (functions : Functions) (scopes : Scopes) : Except Violation Unit :=
  match functions.params c.name with
  | .error e => .error e
  | .ok params => if fitAll params c.args scopes then .ok () else .error .invalidParameterList

/-- Each operand of a condition has to fit where a truth value is wanted. -/
def Condition.check (c : Condition) (scopes : Scopes) : Except Violation Unit :=
  if c.operands.all (·.fits .boolean scopes) then .ok () else .error .invalidBooleanExpression

/-- Once the name, finality and type are right, a new value is always recorded. -/
theorem Assignment.applyTo_eq_ok {a : Assignment} {scopes : Scopes} {v : Variable}
    (hv : scopes.resolve a.name = some v) (hfinal : v.isFinal = false) (hfits : a.value.fits v.ty scopes = true) :
    a.applyTo scopes = (.ok (), scopes.record a.name a.value.text) := by
  rw [applyTo, hv]
  simp [hfinal, hfits, Scopes.assign_eq_ok hv hfinal]

/-- A new value is recorded if all the rules are kept; otherwise the variables stay as they are. -/
theorem Assignment.applyTo_cases (a : Assignment) (scopes : Scopes) :
    (∃ e ∈ [Violation.variableNotFound, .changeFinal, .invalidAssignment], a.applyTo scopes = (.error e, scopes)) ∨
    ∃ v, scopes.resolve a.name = some v ∧ v.isFinal = false ∧ a.value.fits v.ty scopes = true ∧
      a.applyTo scopes = (.ok (), scopes.record a.name a.value.text) := by
  cases hv : scopes.resolve a.name with
  | none => exact .inl ⟨.variableNotFound, by simp, by rw [applyTo, hv]⟩
  | some v =>
    cases hfinal : v.isFinal with
    | true => exact .inl ⟨.changeFinal, by simp, by simp [applyTo, hv, hfinal]⟩
    | false =>
      cases hfits : a.value.fits v.ty scopes with
      | true => exact .inr ⟨v, rfl, hfinal, hfits, applyTo_eq_ok hv hfinal hfits⟩
      | false => exact .inl ⟨.invalidAssignment, by simp, by simp [applyTo, hv, hfinal, hfits]⟩

/-- Counting first and then comparing pairwise says the same as `fitAll`. -/
theorem fitAll_eq (params : List Param) (args : List Value) (scopes : Scopes) :
    fitAll params args scopes =
      (params.length == args.length && (params.zip args).all fun pair => pair.2.fits pair.1.ty scopes) := by
  fun_induction fitAll params args scopes with
  | case1 => rfl
  | case2 p ps a as ih => simp [ih, Bool.and_left_comm]
  | case3 params args hnil hcons =>
    -- one of the lists is longer than the other
    cases params with
    | nil => cases args with
      | nil => exact absurd rfl (hnil rfl)
      | cons a as => rfl
    | cons p ps => cases args with
      | nil => rfl
      | cons a as => exact absurd rfl (hcons p ps a as rfl)

end LineCheck
