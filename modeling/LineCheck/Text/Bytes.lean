/-!
# LineCheck.Text.Bytes — positions in a text counted in UTF-8 bytes

`byteLength` measures a list of characters, `dropBytes` and `takeBytes` cut it at a byte offset.  Both answer only when
the offset falls between two characters, and then they undo `++`: `dropBytes_append`, `takeBytes_append`.
-/

namespace LineCheck.Text

/-- The number of bytes in the UTF-8 form of the characters. -/
def byteLength : List Char → Nat
  | [] => 0
  | c :: cs => c.utf8Size + byteLength cs

@[simp] theorem byteLength_nil : byteLength [] = 0 := rfl

@[simp] theorem byteLength_cons (c : Char) (cs : List Char) : byteLength (c :: cs) = c.utf8Size + byteLength cs := rfl

@[simp] theorem byteLength_append (as bs : List Char) : byteLength (as ++ bs) = byteLength as + byteLength bs := by
  induction as with
  | nil => exact (Nat.zero_add _).symm
  | cons c as ih => rw [List.cons_append, byteLength_cons, byteLength_cons, ih, Nat.add_assoc]

/-- A character takes at least one byte. -/
theorem length_le_byteLength (cs : List Char) : cs.length ≤ byteLength cs := by
  induction cs with
  | nil => exact Nat.le_refl 0
  | cons c cs ih =>
    have hpos := c.utf8Size_pos
    simp only [byteLength_cons, List.length_cons]
    omega

/-- What follows the first `n` bytes, if a character or the end of the text is there. -/
def dropBytes : Nat → List Char → Option (List Char)
  | 0, cs => some cs
  | _ + 1, [] => none
  | n + 1, c :: cs => if c.utf8Size ≤ n + 1 then dropBytes (n + 1 - c.utf8Size) cs else none

/-- The characters of the first `n` bytes, if a character or the end of the text follows them. -/
def takeBytes : Nat → List Char → Option (List Char)
  | 0, _ => some []
  | _ + 1, [] => none
  | n + 1, c :: cs => if c.utf8Size ≤ n + 1 then (takeBytes (n + 1 - c.utf8Size) cs).map (c :: ·) else none

@[simp] theorem dropBytes_zero (cs : List Char) : dropBytes 0 cs = some cs := by cases cs <;> rfl

@[simp] theorem takeBytes_zero (cs : List Char) : takeBytes 0 cs = some [] := by cases cs <;> rfl

theorem dropBytes_cons (c : Char) (n : Nat) (cs : List Char) :
    dropBytes (c.utf8Size + n) (c :: cs) = dropBytes n cs := by
  obtain ⟨k, hk⟩ : ∃ k, c.utf8Size + n = k + 1 := ⟨c.utf8Size + n - 1, by have := c.utf8Size_pos; omega⟩
  rw [hk, dropBytes, if_pos (by omega), ← hk, Nat.add_sub_cancel_left]

theorem takeBytes_cons (c : Char) (n : Nat) (cs : List Char) :
    takeBytes (c.utf8Size + n) (c :: cs) = (takeBytes n cs).map (c :: ·) := by
  obtain ⟨k, hk⟩ : ∃ k, c.utf8Size + n = k + 1 := ⟨c.utf8Size + n - 1, by have := c.utf8Size_pos; omega⟩
  rw [hk, takeBytes, if_pos (by omega), ← hk, Nat.add_sub_cancel_left]

/-- Dropping the bytes of the first part leaves the second. -/
@[simp] theorem dropBytes_append (as bs : List Char) : dropBytes (byteLength as) (as ++ bs) = some bs := by
  induction as with
  | nil => simp
  | cons a as ih => rw [byteLength_cons, List.cons_append, dropBytes_cons, ih]

/-- Taking the bytes of the first part gives it back. -/
@[simp] theorem takeBytes_append (as bs : List Char) : takeBytes (byteLength as) (as ++ bs) = some as := by
  induction as with
  | nil => simp
  | cons a as ih => rw [byteLength_cons, List.cons_append, takeBytes_cons, ih]; rfl

end LineCheck.Text
