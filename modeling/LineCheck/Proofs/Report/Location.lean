import LineCheck.Proofs.Pass.Rejection
import LineCheck.Proofs.Source.Lines
import LineCheck.Report.Outcome

/-!
# LineCheck.Proofs.Report.Location — where a rejection says that a program is wrong

A line number in a rejection is that of a line that was read, whichever pass has read it, and the line can be looked up
by its number.  So the diagnostic always shows it (`Rejection.diagnostic_of_line`); only blocks that are not balanced
have no line to show.  `Outcome.ofSource_located` says so for what is told of a program.
-/

namespace LineCheck

open Source

variable {source : Source} {r : Rejection}

/-- A rejection of a program has no line exactly if its blocks are not balanced. -/
theorem Source.RefusedFor.line_eq_none_iff (h : source.RefusedFor r) :
    r.line = none ↔ r.violation = .invalidScopeClosing := by
  cases h with
  | line _ hrule => exact ⟨fun hnone => (nomatch hnone), fun hviolation => absurd hviolation hrule⟩
  | unclosed _ _ => exact ⟨fun _ => rfl, fun _ => rfl⟩
  | unopened _ _ _ => exact ⟨fun _ => rfl, fun _ => rfl⟩

/-- A line number in a rejection is that of a line that was read. -/
theorem Source.RefusedFor.exists_line (h : source.RefusedFor r) {n : Nat} (hline : r.line = some n) :
    ∃ l ∈ source.lines, l.number = n := by
  cases h with
  | line hmem _ => exact ⟨_, hmem, Option.some.inj hline⟩
  | unclosed _ _ => cases hline
  | unopened _ _ _ => cases hline

namespace Rejection

theorem message_of_line {n : Nat} (hline : r.line = some n) :
    r.message = "In line " ++ toString n ++ ": " ++ r.violation.message := by
  rw [message, hline]

/-- Without a line the diagnostic is the message. -/
theorem diagnostic_of_none (hline : r.line = none) : r.diagnostic source = r.message := by
  rw [diagnostic, hline]

/-- With the number of a line of the program the diagnostic shows the line. -/
theorem diagnostic_of_line {n : Nat} {text : String} (hline : r.line = some n) (htext : source.line? n = some text) :
    r.diagnostic source =
      r.message ++ "\n  --> " ++ source.name ++ ":" ++ toString n ++ "\n   |\n" ++ lineColumn n ++ "| " ++ text := by
  rw [diagnostic, hline]
  dsimp only
  rw [htext]

end Rejection

namespace Outcome

/-- A program is legal, or it is refused with a rejection that has no line exactly if blocks are not balanced.  The line
of any other rejection is one of the lines that are read; it is found under its number, and the diagnostic shows it as
it was read, without the carriage returns at its end.  The report says the same as the rejection. -/
theorem ofSource_located (source : Source) :
    ofSource source = legal ∨
      ∃ r diagnostic, ofSource source = illegal r diagnostic ∧
        (ofSource source).report = ⟨1, r.message, r.line, some r.violation⟩ ∧
        (r.line = none ↔ r.violation = .invalidScopeClosing) ∧
        (r.line = none → diagnostic = r.message ∧ r.message = r.violation.message) ∧
        ∀ n, r.line = some n → 1 ≤ n ∧ n ≤ source.lines.length ∧
          ∃ text, source.lines[n - 1]? = some ⟨n, text⟩ ∧
            source.line? n = some (String.ofList (trimReturns text.toList)) ∧
            r.message = "In line " ++ toString n ++ ": " ++ r.violation.message ∧
            diagnostic = r.message ++ "\n  --> " ++ source.name ++ ":" ++ toString n ++ "\n   |\n" ++
              Rejection.lineColumn n ++ "| " ++ String.ofList (trimReturns text.toList) := by
  cases hverdict : source.verdict with
  | ok _ => exact .inl (congrArg (ofVerdict source) hverdict)
  | error r =>
    have hrefused := refusedFor_of_verdict hverdict
    have houtcome : ofSource source = illegal r (r.diagnostic source) := congrArg (ofVerdict source) hverdict
    refine .inr ⟨r, _, houtcome, congrArg report houtcome, hrefused.line_eq_none_iff, ?_, ?_⟩
    · intro hnone
      exact ⟨Rejection.diagnostic_of_none hnone, by rw [Rejection.message, hnone]⟩
    · intro n hline
      obtain ⟨l, hmem, rfl⟩ := hrefused.exists_line hline
      obtain ⟨hpos, hle, hget, hshown⟩ := number_of_mem_lines hmem
      exact ⟨hpos, hle, l.text, hget, hshown, Rejection.message_of_line hline,
        Rejection.diagnostic_of_line hline hshown⟩

/-- A variable that is declared once more, in a line that ends with two carriage returns. -/
def declaredAgain : Source :=
  ⟨"again", "int a;\r\nint a;\r\r\n"⟩

/-- The line is read with one of the two and shown with none. -/
theorem ofSource_located_declaredAgain :
    ∃ r diagnostic, ofSource declaredAgain = illegal r diagnostic ∧ r.line = some 2 ∧
      declaredAgain.lines[1]? = some ⟨2, "int a;\r"⟩ ∧ declaredAgain.line? 2 = some "int a;" ∧
      diagnostic = "In line 2: Variable already exists\n  --> again:2\n   |\n  2| int a;" := by
  have hverdict : declaredAgain.verdict = .error (.atLine 2 .variableExists) := by decide +kernel
  have houtcome : ofSource declaredAgain = illegal (.atLine 2 .variableExists) _ :=
    congrArg (ofVerdict declaredAgain) hverdict
  have hread : declaredAgain.lines[1]? = some ⟨2, "int a;\r"⟩ := by decide +kernel
  rcases ofSource_located declaredAgain with hlegal | ⟨r, diagnostic, hillegal, -, -, -, hline⟩
  · rw [hlegal] at houtcome
    cases houtcome
  · obtain ⟨rfl, -⟩ := Outcome.illegal.inj (houtcome.symm.trans hillegal)
    obtain ⟨-, -, text, htext, hshown, -, hdiagnostic⟩ := hline 2 rfl
    obtain rfl : "int a;\r" = text := by
      have hsame := hread.symm.trans htext
      cases hsame
      rfl
    refine ⟨_, _, hillegal, rfl, hread, hshown.trans ?_, hdiagnostic.trans ?_⟩
    · decide +kernel
    · decide +kernel

end Outcome

end LineCheck
