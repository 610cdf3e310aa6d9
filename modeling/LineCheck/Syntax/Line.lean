import LineCheck.Syntax.Cursor
import LineCheck.Text.Braces

/-!
# LineCheck.Syntax.Line — a line read as a statement

`Line.ofText` tells blank lines and comments from the text and parses every other line.  A line that it accepts
keeps its number and the texts of its tokens; a comment counts as one token and a blank line has none.
-/

namespace LineCheck

open Text

/-- A line of a program, its number counted from one, that has been read as a statement. -/
structure Line where
  number : Nat
  tokens : List String
  statement : Statement
  deriving DecidableEq, Repr

namespace Line

/-- Read a line as a statement. -/
def ofText (number : Nat) (text : String) : Except ParseError Line :=
  if allBlank text then .ok ⟨number, [], .blank⟩
  else if isComment text then .ok ⟨number, [text], .comment⟩
  else
    let start := Cursor.ofString text
    start.parseLine.1.map fun s => ⟨number, start.line.texts, s⟩

/-- The sort of the line. -/
def kind (l : Line) : LineKind :=
  l.statement.kind

/-- A line that is read keeps its number. -/
theorem number_ofText {number : Nat} {text : String} {l : Line} (h : ofText number text = .ok l) :
    l.number = number := by
  unfold ofText at h
  split at h
  · cases h; rfl
  · split at h
    · cases h; rfl
    · dsimp only at h
      cases hp : (Cursor.ofString text).parseLine.1 with
      | error e => rw [hp] at h; cases h
      | ok s => rw [hp] at h; cases h; rfl

end Line

end LineCheck
