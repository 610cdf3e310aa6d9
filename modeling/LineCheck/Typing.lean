import LineCheck.Symbol.Scopes

/-!
# LineCheck.Typing — which values may stand at a place of a type

A literal is judged by its sort, a name by the variable that it means, which has to have a value already.  A name that
means nothing fits nowhere.
-/

namespace LineCheck

/-- The literal may stand where a value of the type is wanted. -/
def Literal.fits (l : Literal) (target : Ty) : Bool :=
  match l with
  | int _ => target.accepts .int
  | double _ => target.accepts .double
  | boolean _ => target == .boolean
  -- the two quotes with exactly one character between them
  | char raw => target == .char && raw.toList.length == 3
  | string _ => target == .string

/-- The value may stand where a value of the type is wanted. -/
def Value.fits (v : Value) (target : Ty) (scopes : Scopes) : Bool :=
  match v with
  | literal l => l.fits target
  | name n =>
    match scopes.resolve n with
    | some var => var.isAssigned && target.accepts var.ty
    | none => false

/-- What fits a type fits every type that takes it. -/
theorem Literal.fits_of_accepts {l : Literal} {source target : Ty} (hl : l.fits source = true)
    (h : target.accepts source = true) : l.fits target = true := by
  cases l with
  | int raw => exact Ty.accepts_trans h hl
  | double raw => exact Ty.accepts_trans h hl
  | boolean b => cases source <;> cases target <;> simp_all [fits, Ty.accepts]
  | char raw => cases source <;> cases target <;> simp_all [fits, Ty.accepts]
  | string raw => cases source <;> cases target <;> simp_all [fits, Ty.accepts]

end LineCheck
