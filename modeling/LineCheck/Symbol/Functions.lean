import LineCheck.Syntax.Statement
import LineCheck.Violation

/-!
# LineCheck.Symbol.Functions — the functions of a program

A table of signatures, in which every function has one entry (`declare` refuses a second one).
-/

namespace LineCheck

/-- What is known of a function: its name, its parameters in order, and the line that declares it. -/
structure Signature where
  name : String
  params : List Param
  line : Nat
  deriving DecidableEq, Repr

/-- The functions that are declared so far. -/
structure Functions where
  signatures : List Signature := []
  deriving DecidableEq, Repr

namespace Functions

/-- The signature of the function with this name. -/
def find? (f : Functions) (name : String) : Option Signature :=
  f.signatures.find? fun s => s.name == name

/-- There is a function with this name. -/
def contains (f : Functions) (name : String) : Bool :=
  (f.find? name).isSome

/-- The parameters of the function with this name. -/
def params (f : Functions) (name : String) : Except Violation (List Param) :=
  match f.find? name with
  | some s => .ok s.params
  | none => .error .functionNotFound

/-- Add a function. -/
def declare (f : Functions) (s : Signature) : Except Violation Functions :=
  if f.contains s.name then .error .functionExists else .ok ⟨s :: f.signatures⟩

/-- The number of functions. -/
def size (f : Functions) : Nat :=
  f.signatures.length

/-- A new function is found under its name, and the others are found still. -/
theorem find?_of_declare {f f' : Functions} {s : Signature} (h : f.declare s = .ok f') (name : String) :
    f'.find? name = if s.name = name then some s else f.find? name := by
  unfold declare at h
  split at h
  · cases h
  · cases h
    by_cases hn : s.name = name <;> simp [find?, hn]

/-- Only a function that is new is added. -/
theorem find?_eq_none_of_declare {f f' : Functions} {s : Signature} (h : f.declare s = .ok f') :
    f.find? s.name = none := by
  unfold declare at h
  split at h
  · cases h
  · next hnew => simpa [contains] using hnew

theorem exists_declare {f : Functions} (s : Signature) (h : f.find? s.name = none) : ∃ f', f.declare s = .ok f' := by
  simp [declare, contains, h]

theorem size_of_declare {f f' : Functions} {s : Signature} (h : f.declare s = .ok f') : f'.size = f.size + 1 := by
  unfold declare at h
  split at h
  · cases h
  · cases h; rfl

end Functions

end LineCheck
