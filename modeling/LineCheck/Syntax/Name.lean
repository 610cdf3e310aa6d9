/-!
# LineCheck.Syntax.Name — which words may name a variable or a function

The scanner has already made sure that a word holds letters, digits and underscores and does not start with a digit.
A variable name may start with an underscore if a letter or digit follows it; a function name starts with a letter.
-/

namespace LineCheck

/-- The word may name a variable. -/
def isVariableName (word : String) : Bool :=
  match word.toList with
  | '_' :: c :: _ => c.isAlphanum
  | c :: _ => c.isAlpha
  | [] => false

/-- The word may name a function. -/
def isFunctionName (word : String) : Bool :=
  match word.toList with
  | c :: _ => c.isAlpha
  | [] => false

theorem isVariableName_of_isFunctionName {word : String} (h : isFunctionName word = true) :
    isVariableName word = true := by
  unfold isFunctionName at h
  unfold isVariableName
  split
  · next heq => rw [heq] at h; exact absurd (show '_'.isAlpha = true from h) (by decide)
  · next heq => rw [heq] at h; exact h
  · next heq => rw [heq] at h; exact h

end LineCheck
