import LineCheck.Pass.Verdict
import LineCheck.Report.Diagnostic
import LineCheck.Report.Fault
import LineCheck.Text.Quoted

/-!
# LineCheck.Report.Outcome — what a run tells its caller

A run ends in one of three ways: the program is legal, it breaks a rule, or there was none to check.  Each has an exit
code and a message, and all but the first a diagnostic.  A report is the short form of an outcome, and can be written
as JSON.
-/

namespace LineCheck

/-- How a run ended. -/
inductive Outcome where
  | legal
  | illegal (rejection : Rejection) (diagnostic : String)
  | unusable (fault : InputFault)
  deriving DecidableEq, Repr

/-- The short form of an outcome. -/
structure Report where
  code : Nat
  message : String
  line : Option Nat
  violation : Option Violation
  deriving DecidableEq, Repr

namespace Outcome

/-- The outcome for a program that has been checked. -/
def ofVerdict (source : Source) : Except Rejection Unit → Outcome
  | .ok () => legal
  | .error r => illegal r (r.diagnostic source)

/-- The outcome of checking a program. -/
def ofSource (source : Source) : Outcome :=
  ofVerdict source source.verdict

/-- A function may be called before the line that declares it. -/
example :
    ofSource ⟨"a", "void f() \x7b\ng(1);\nreturn;\n\x7d\nvoid g(double x) \x7b\nreturn;\n\x7d\n"⟩ = legal := by
  decide +kernel

/-- A block that is left open has no line of its own. -/
example : ofSource ⟨"a", "void f() \x7b\nreturn;\n"⟩ = illegal .unbalanced Rejection.unbalanced.message := by
  decide +kernel

/-- The exit code. -/
def code : Outcome → Nat
  | legal => 0
  | illegal _ _ => 1
  | unusable _ => 2

/-- The outcome in one line. -/
def message : Outcome → String
  | legal => "Compilation successful"
  | illegal r _ => r.message
  | unusable fault => fault.message

/-- What there is to tell of an outcome that is not legal. -/
def diagnostic? : Outcome → Option String
  | legal => none
  | illegal _ diagnostic => some diagnostic
  | unusable fault => some fault.message

/-- The short form. -/
def report (o : Outcome) : Report :=
  match o with
  | illegal r _ => ⟨o.code, o.message, r.line, some r.violation⟩
  | _ => ⟨o.code, o.message, none, none⟩

theorem diagnostic?_eq_none_iff (o : Outcome) : o.diagnostic? = none ↔ o.code = 0 := by
  cases o <;> simp [diagnostic?, code]

end Outcome

namespace Report

/-- The report as a JSON object, one member on each line. -/
def toJson (r : Report) : String :=
  "\x7b\n  \"code\": " ++ toString r.code ++
    ",\n  \"message\": " ++ Text.quote r.message ++
    ",\n  \"line\": " ++ r.line.elim "null" toString ++
    ",\n  \"kind\": " ++ r.violation.elim "null" (fun v => Text.quote v.code) ++
    "\n\x7d"

example :
    toJson ⟨1, "In line 1: Variable not found", some 1, some .variableNotFound⟩ =
      "\x7b\n  \"code\": 1,\n  \"message\": \"In line 1: Variable not found\",\n  \"line\": 1,\n  \"kind\": " ++
        "\"VariableNotFound\"\n\x7d" := by
  decide +kernel

end Report

end LineCheck
