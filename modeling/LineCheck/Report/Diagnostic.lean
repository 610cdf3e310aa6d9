import LineCheck.Source.Basic
import LineCheck.Violation

/-!
# LineCheck.Report.Diagnostic — a rejection together with the line that it is about

The message comes first, then the name of the program with the line number, and then the line itself behind its number.
-/

namespace LineCheck

namespace Rejection

/-- A line number in at least three columns, to the right. -/
def lineColumn (number : Nat) : String :=
  String.ofList ((toString number).toList.leftpad 3 ' ')

/-- The message, where the line is, and the line itself if there is one with this number. -/
def diagnostic (r : Rejection) (source : Source) : String :=
  match r.line with
  | none => r.message
  | some n =>
    let place := r.message ++ "\n  --> " ++ source.name ++ ":" ++ toString n
    match source.line? n with
    | some text => place ++ "\n   |\n" ++ lineColumn n ++ "| " ++ text
    | none => place

example :
    (atLine 2 .variableExists).diagnostic ⟨"a.sjava", "int a;\nint a;\r\n"⟩ =
      "In line 2: Variable already exists\n  --> a.sjava:2\n   |\n  2| int a;" := by
  decide +kernel

end Rejection

end LineCheck
