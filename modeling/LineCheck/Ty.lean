/-!
# LineCheck.Ty — the types of values

A variable, a parameter and a literal have one of five types.  `Ty.accepts target source` says whether a value of type
`source` may stand where `target` is wanted: an `int` widens to `double`, and a truth value may be given as a number.
The relation is reflexive and transitive (`accepts_refl`, `accepts_trans`), so a chain of copies never widens further
than a single copy may.
-/

namespace LineCheck

/-- The type of a variable, a parameter or a literal. -/
inductive Ty where
  | int
  | double
  | boolean
  | char
  | string
  deriving DecidableEq, Repr, Inhabited

namespace Ty

/-- The word that stands for the type in a program. -/
def word : Ty → String
  | int => "int"
  | double => "double"
  | boolean => "boolean"
  | char => "char"
  | string => "String"

/-- A place of type `target` takes a value of its own type; a `double` takes an `int` too, and a `boolean` a number. -/
def accepts (target source : Ty) : Bool :=
  match target, source with
  | double, int => true
  | boolean, int => true
  | boolean, double => true
  | _, _ => target == source

@[simp] theorem accepts_refl (t : Ty) : t.accepts t = true := by cases t <;> rfl

theorem accepts_trans {a b c : Ty} (hab : a.accepts b = true) (hbc : b.accepts c = true) : a.accepts c = true := by
  cases a <;> cases b <;> cases c <;> simp_all [accepts]

theorem word_injective {a b : Ty} (h : a.word = b.word) : a = b := by
  cases a <;> cases b <;> simp_all [word]

end Ty

end LineCheck
