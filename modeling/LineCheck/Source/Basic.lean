import LineCheck.Source.Lines
import LineCheck.Text.Bytes

/-!
# LineCheck.Source.Basic — the text of a program and its lines

The lines of a program can be had in two ways: one after the other with their numbers, by a `LineReader`, which is how
they are checked; and by number, by `Source.line?`, which cuts the line out of the text by the offset of its first
byte, and which is how they are shown.  A line that is shown has lost all the carriage returns at its end, a line that
is checked only the one before its line feed.
-/

namespace LineCheck

open Text

/-- A line of a program and its number, counted from one. -/
structure NumberedLine where
  number : Nat
  text : String
  deriving DecidableEq, Repr

/-- A program: a name for messages, and the text. -/
structure Source where
  name : String
  text : String
  deriving DecidableEq, Repr

/-- A place between two lines: the number of lines before it, and the lines behind it. -/
structure LineReader where
  number : Nat
  ahead : List String
  deriving DecidableEq, Repr

namespace LineReader

/-- The next line, and the place behind it. -/
def next? (c : LineReader) : Option (NumberedLine × LineReader) :=
  match c.ahead with
  | [] => none
  | text :: more => some (⟨c.number + 1, text⟩, ⟨c.number + 1, more⟩)

/-- The lines after `number` others, numbered on from there. -/
def numberFrom (number : Nat) : List String → List NumberedLine
  | [] => []
  | text :: more => ⟨number + 1, text⟩ :: numberFrom (number + 1) more

/-- All lines behind the place. -/
def toList (c : LineReader) : List NumberedLine :=
  numberFrom c.number c.ahead

@[simp] theorem length_numberFrom (number : Nat) (texts : List String) :
    (numberFrom number texts).length = texts.length := by
  induction texts generalizing number with
  | nil => rfl
  | cons text more ih => simp [numberFrom, ih]

theorem toList_of_next?_eq_none {c : LineReader} (h : c.next? = none) : c.toList = [] := by
  obtain ⟨number, ahead⟩ := c
  cases ahead with
  | nil => rfl
  | cons text more => cases h

theorem toList_of_next?_eq_some {c c' : LineReader} {l : NumberedLine} (h : c.next? = some (l, c')) :
    c.toList = l :: c'.toList := by
  obtain ⟨number, ahead⟩ := c
  cases ahead with
  | nil => cases h
  | cons text more => cases h; rfl

end LineReader

namespace Source

/-- The texts of the lines. -/
def lineTexts (s : Source) : List String :=
  (pieces s.text.toList).map fun piece => String.ofList (content piece)

/-- The place before the first line. -/
def reader (s : Source) : LineReader :=
  ⟨0, s.lineTexts⟩

/-- The lines with their numbers. -/
def lines (s : Source) : List NumberedLine :=
  s.reader.toList

/-- The offset of the first byte of each line, and of the end of the text if a line feed stands there. -/
def lineOffsets (s : Source) : List Nat :=
  0 :: offsetsFrom 0 s.text.toList

/-- The characters without the carriage returns at their end. -/
def trimReturns (cs : List Char) : List Char :=
  (cs.reverse.dropWhile (· == '\r')).reverse

/-- The line with this number without its line feed and without the carriage returns at its end. -/
def line? (s : Source) (number : Nat) : Option String :=
  let text := s.text.toList
  let size := byteLength text
  match number with
  | 0 => none
  | before + 1 =>
    match s.lineOffsets[before]? with
    | none => none
    | some start =>
      if size < start ∨ start = size ∧ 0 < before then none
      else
        let stop := s.lineOffsets[before + 1]?.elim size (· - 1)
        ((dropBytes start text).bind (takeBytes (stop - start))).map fun cs => String.ofList (trimReturns cs)

end Source

end LineCheck
