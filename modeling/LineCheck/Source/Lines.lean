/-!
# LineCheck.Source.Lines — cutting a text into lines

A line ends behind each line feed, and the last one at the end of the text if anything stands behind the last line
feed.  `pieces` cuts there and loses nothing (`flatten_pieces`); `content` is a piece without its line feed and
without one carriage return directly before it.
-/

namespace LineCheck.Source

/-- The pieces of a text, each up to and including a line feed, the last one perhaps without. -/
def pieces : List Char → List (List Char)
  | [] => []
  | c :: cs =>
    if c = '\n' then [c] :: pieces cs
    else
      match pieces cs with
      | [] => [[c]]
      | piece :: more => (c :: piece) :: more

/-- The text of a line: its piece without the line feed, and without a carriage return right before that. -/
def content (piece : List Char) : List Char :=
  match piece.reverse with
  | '\n' :: '\r' :: before => before.reverse
  | '\n' :: before => before.reverse
  | _ => piece

/-- Nothing is lost between the pieces. -/
theorem flatten_pieces (cs : List Char) : (pieces cs).flatten = cs := by
  fun_induction pieces cs with
  | case1 => rfl
  | case2 cs ih => simp [ih]
  | case3 c cs hc hnil ih => simp [hnil] at ih; simp [← ih]
  | case4 c cs hc piece more heq ih => rw [heq] at ih; simp [← ih]

/-- The offsets at which the characters behind a line feed stand, counted from `offset` in bytes. -/
def offsetsFrom (offset : Nat) : List Char → List Nat
  | [] => []
  | c :: cs =>
    let next := offset + c.utf8Size
    if c = '\n' then next :: offsetsFrom next cs else offsetsFrom next cs

end LineCheck.Source
