import LineCheck.Source.Basic

/-!
# LineCheck.Proofs.Source.Lines — the lines of a text and their offsets

The offsets of a text say where its pieces start (`exists_split_of_piece`).  So the line that `Source.line?` cuts out of
the text for a number is the one that is read under this number, up to carriage returns at its end
(`line?_of_lineTexts`).
-/

namespace LineCheck

open Text

/-- A line feed is one byte long. -/
theorem Text.byteLength_concat_feed (line : List Char) : byteLength (line ++ ['\n']) = byteLength line + 1 := by
  rw [byteLength_append]
  rfl

/-- The lines are numbered in their order. -/
theorem LineReader.getElem?_numberFrom (number : Nat) (texts : List String) (i : Nat) :
    (numberFrom number texts)[i]? = texts[i]?.map (NumberedLine.mk (number + i + 1)) := by
  induction texts generalizing number i with
  | nil => rfl
  | cons text texts ih =>
    cases i with
    | zero => rfl
    | succ i =>
      rw [numberFrom, List.getElem?_cons_succ, List.getElem?_cons_succ, ih, Nat.add_right_comm number 1 i]
      rfl

namespace Source

/-! ### Cutting a text at its line feeds -/

/-- A text without line feeds, or a line with a line feed before another text. -/
theorem lines_induction {P : List Char → Prop} (last : ∀ cs, '\n' ∉ cs → P cs)
    (cons : ∀ line cs, '\n' ∉ line → P cs → P (line ++ '\n' :: cs)) (cs : List Char) : P cs := by
  induction hn : cs.length using Nat.strongRecOn generalizing cs with
  | ind n ih =>
    by_cases hmem : '\n' ∈ cs
    · obtain ⟨line, rest, rfl, hline⟩ := List.eq_append_cons_of_mem hmem
      refine cons line rest hline (ih rest.length ?_ rest rfl)
      rw [← hn, List.length_append, List.length_cons]
      omega
    · exact last cs hmem

theorem pieces_append {line : List Char} (h : '\n' ∉ line) (cs : List Char) :
    pieces (line ++ '\n' :: cs) = (line ++ ['\n']) :: pieces cs := by
  induction line with
  | nil => simp [pieces]
  | cons c line ih =>
    have hc : c ≠ '\n' := fun hc => h (hc ▸ List.mem_cons_self)
    rw [List.cons_append, pieces, if_neg hc, ih fun hmem => h (List.mem_cons_of_mem c hmem)]
    rfl

/-- A text without line feeds is one piece, unless there is nothing in it. -/
theorem pieces_of_not_mem {cs : List Char} (h : '\n' ∉ cs) : pieces cs = if cs = [] then [] else [cs] := by
  induction cs with
  | nil => rfl
  | cons c cs ih =>
    have hcs := List.not_mem_of_not_mem_cons h
    rw [pieces, if_neg (List.ne_of_not_mem_cons h).symm, ih hcs, if_neg (List.cons_ne_nil c cs)]
    by_cases hnil : cs = []
    · rw [if_pos hnil, hnil]
    · rw [if_neg hnil]

theorem offsetsFrom_append {line : List Char} (h : '\n' ∉ line) (offset : Nat) (cs : List Char) :
    offsetsFrom offset (line ++ '\n' :: cs) =
      (offset + byteLength (line ++ ['\n'])) :: offsetsFrom (offset + byteLength (line ++ ['\n'])) cs := by
  induction line generalizing offset with
  | nil => rfl
  | cons c line ih =>
    have hline := List.not_mem_of_not_mem_cons h
    rw [List.cons_append, offsetsFrom, if_neg (List.ne_of_not_mem_cons h).symm, ih hline, List.cons_append,
      byteLength_cons, Nat.add_assoc]

theorem offsetsFrom_of_not_mem {cs : List Char} (h : '\n' ∉ cs) (offset : Nat) : offsetsFrom offset cs = [] := by
  induction cs generalizing offset with
  | nil => rfl
  | cons c cs ih =>
    have hcs := List.not_mem_of_not_mem_cons h
    rw [offsetsFrom, if_neg (List.ne_of_not_mem_cons h).symm, ih hcs]

/-- Where the piece with the index `i` stands in a text whose first byte has the given offset: its own offset is the one
with this index, and the next one is that of its end if it has a line feed there. -/
theorem exists_split_of_piece {cs piece : List Char} {i : Nat} (h : (pieces cs)[i]? = some piece) (offset : Nat) :
    ∃ front back, cs = front ++ (piece ++ back) ∧
      (offset :: offsetsFrom offset cs)[i]? = some (offset + byteLength front) ∧
      ((∃ line, piece = line ++ ['\n'] ∧
          (offset :: offsetsFrom offset cs)[i + 1]? = some (offset + byteLength front + byteLength piece)) ∨
        piece ≠ [] ∧ '\n' ∉ piece ∧ back = [] ∧ (offset :: offsetsFrom offset cs)[i + 1]? = none) := by
  induction cs using lines_induction generalizing i offset with
  | last cs hcs =>
    rw [pieces_of_not_mem hcs] at h
    rw [offsetsFrom_of_not_mem hcs]
    by_cases hnil : cs = []
    · simp [hnil] at h
    · rw [if_neg hnil] at h
      obtain ⟨rfl, rfl⟩ : i = 0 ∧ cs = piece := by
        cases i with
        | zero => exact ⟨rfl, Option.some.inj h⟩
        | succ i => cases h
      exact ⟨[], [], (List.append_nil cs).symm, rfl, .inr ⟨hnil, hcs, rfl, rfl⟩⟩
  | cons line cs hline ih =>
    rw [pieces_append hline] at h
    rw [offsetsFrom_append hline]
    cases i with
    | zero =>
      cases h
      exact ⟨[], cs, by simp, rfl, .inl ⟨line, rfl, rfl⟩⟩
    | succ i =>
      obtain ⟨front, back, hcs, hstart, hstop⟩ := ih h (offset + byteLength (line ++ ['\n']))
      refine ⟨line ++ '\n' :: front, back, by simp [hcs], ?_, ?_⟩
      · rw [List.getElem?_cons_succ, hstart]
        simp [Nat.add_assoc]
      · rw [List.getElem?_cons_succ]
        simpa [Nat.add_assoc] using hstop

/-! ### Carriage returns -/

/-- At most one carriage return is lost. -/
theorem eq_content_or (line : List Char) :
    line = content (line ++ ['\n']) ∨ line = content (line ++ ['\n']) ++ ['\r'] := by
  rw [content, List.reverse_append, List.reverse_singleton, List.singleton_append]
  split
  · next before h =>
    right
    rw [← List.reverse_cons, ← (List.cons.inj h).2, List.reverse_reverse]
  · next before _ h =>
    left
    rw [← (List.cons.inj h).2, List.reverse_reverse]
  · next hnone => exact absurd rfl (hnone line.reverse)

@[simp] theorem trimReturns_concat (cs : List Char) : trimReturns (cs ++ ['\r']) = trimReturns cs := by
  simp [trimReturns]

/-- The carriage return that a line loses when it is read is one of those that it loses when it is shown. -/
theorem trimReturns_content (line : List Char) : trimReturns (content (line ++ ['\n'])) = trimReturns line := by
  rcases eq_content_or line with h | h
  · rw [← h]
  · exact ((congrArg trimReturns h).trans (trimReturns_concat _)).symm

theorem content_of_not_mem {piece : List Char} (h : '\n' ∉ piece) : content piece = piece := by
  have hmem : ∀ c cs, piece.reverse = c :: cs → c ≠ '\n' := by
    rintro c cs heq rfl
    exact h (List.mem_reverse.mp (heq ▸ List.mem_cons_self))
  unfold content
  split
  · next heq => exact absurd rfl (hmem _ _ heq)
  · next heq => exact absurd rfl (hmem _ _ heq)
  · rfl

/-! ### Lines by their numbers -/

variable {source : Source}

/-- A line that is read can be shown, without the carriage returns at its end. -/
theorem line?_of_lineTexts {i : Nat} {text : String} (h : source.lineTexts[i]? = some text) :
    source.line? (i + 1) = some (String.ofList (trimReturns text.toList)) := by
  rw [lineTexts, List.getElem?_map] at h
  obtain ⟨piece, hpiece, rfl⟩ := Option.map_eq_some_iff.mp h
  obtain ⟨front, back, htext, hstart, hstop⟩ := exists_split_of_piece hpiece 0
  rw [Nat.zero_add] at hstart
  have hsize : byteLength source.text.toList = byteLength front + byteLength piece + byteLength back := by
    rw [htext, byteLength_append, byteLength_append, Nat.add_assoc]
  have hdrop : dropBytes (byteLength front) source.text.toList = some (piece ++ back) := by
    rw [htext, dropBytes_append]
  have hlength := length_le_byteLength piece
  simp only [line?, lineOffsets, hstart, hdrop, Option.bind_some, String.toList_ofList]
  rcases hstop with ⟨line, rfl, hstop⟩ | ⟨hne, hmem, rfl, hstop⟩
  · -- the line feed is not shown
    have hbytes := byteLength_concat_feed line
    have hlong : 0 + byteLength front + byteLength (line ++ ['\n']) - 1 - byteLength front = byteLength line := by omega
    rw [if_neg (by omega), hstop, Option.elim_some, hlong, List.append_assoc, takeBytes_append, trimReturns_content]
    rfl
  · have hpos := List.length_pos_iff.mpr hne
    have hlong : byteLength source.text.toList - byteLength front = byteLength piece := by
      rw [hsize, byteLength_nil]
      omega
    rw [if_neg (by omega), hstop, Option.elim_none, hlong, takeBytes_append, content_of_not_mem hmem]
    rfl

/-- A line has one of the numbers from one to the number of lines, and is the one that is shown for it. -/
theorem number_of_mem_lines {l : NumberedLine} (h : l ∈ source.lines) :
    1 ≤ l.number ∧ l.number ≤ source.lines.length ∧ source.lines[l.number - 1]? = some l ∧
      source.line? l.number = some (String.ofList (trimReturns l.text.toList)) := by
  obtain ⟨i, hi⟩ := List.mem_iff_getElem?.mp h
  have hmap : source.lineTexts[i]?.map (NumberedLine.mk (i + 1)) = some l := by
    have hget := LineReader.getElem?_numberFrom 0 source.lineTexts i
    rw [Nat.zero_add] at hget
    exact hget.symm.trans hi
  obtain ⟨text, htext, rfl⟩ := Option.map_eq_some_iff.mp hmap
  obtain ⟨hlt, -⟩ := List.getElem?_eq_some_iff.mp hi
  exact ⟨Nat.succ_pos i, hlt, hi, line?_of_lineTexts htext⟩

end Source

end LineCheck
