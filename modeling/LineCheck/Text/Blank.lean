/-!
# LineCheck.Text.Blank — two sets of blank characters

* `isBlank`: the Unicode property `White_Space`.  A line of such characters alone is a blank line.
* `isGap`: the six ASCII blanks that may stand between two tokens.

Every gap character is blank (`isBlank_of_isGap`), but not the other way round: a no-break space between two tokens
is an invalid token, while a line that holds nothing else is blank.
-/

namespace LineCheck.Text

/-- The code points with the property `White_Space`, as closed ranges in increasing order. -/
def blankRanges : List (Nat × Nat) :=
  [(0x09, 0x0d), (0x20, 0x20), (0x85, 0x85), (0xa0, 0xa0), (0x1680, 0x1680), (0x2000, 0x200a), (0x2028, 0x2029),
    (0x202f, 0x202f), (0x205f, 0x205f), (0x3000, 0x3000)]

/-- The character has the Unicode property `White_Space`. -/
def isBlank (c : Char) : Bool :=
  blankRanges.any fun range => range.1 ≤ c.toNat && c.toNat ≤ range.2

/-- Space, or one of the five control characters tab, line feed, vertical tab, form feed and carriage return. -/
def isGap (c : Char) : Bool :=
  c == ' ' || (0x09 ≤ c.toNat && c.toNat ≤ 0x0d)

theorem isBlank_of_isGap {c : Char} (h : isGap c = true) : isBlank c = true := by
  simp only [isGap, Bool.or_eq_true, beq_iff_eq, Bool.and_eq_true, decide_eq_true_eq] at h
  rcases h with rfl | ⟨hlo, hhi⟩
  · rfl
  · simp [isBlank, blankRanges, hlo, hhi]

/-- The property has twenty-five code points. -/
example : (blankRanges.map fun range => range.2 + 1 - range.1).sum = 25 := rfl

/-- The text has no character that is not blank. -/
def allBlank (text : String) : Bool :=
  text.toList.all isBlank

end LineCheck.Text
