import LineCheck.Proofs.Source.Lines

/-!
# LineCheck.Proofs.Source.Index — the index of the lines and the reader of the lines

A program has its lines twice over: a `LineReader` gives them one after the other, and `Source.line?` cuts the line with
a given number out of the text, with the index `Source.lineOffsets` and a rule of its own for the end of the text.
`Source.cut?` is the pair of bytes between which it cuts; they are always in order, inside the text and between two
characters (`Source.exists_slice_of_cut`).  Where there is an offset but no line behind it, it is that of the end of the
text (`Source.offset_of_no_piece`), so the two agree about which lines there are.  Both are put together in
`Source.index_agrees`.
-/

namespace LineCheck

open Text

/-- The part of a text from byte `start` up to byte `stop`; there is none unless these are in order, inside the text and
each between two characters. -/
def Text.slice? (start stop : Nat) (cs : List Char) : Option (List Char) :=
  if start ≤ stop then (dropBytes start cs).bind (takeBytes (stop - start)) else none

/-- The slice over the bytes of the middle of three parts is the middle part. -/
theorem Text.slice?_append (front here back : List Char) :
    slice? (byteLength front) (byteLength front + byteLength here) (front ++ (here ++ back)) = some here := by
  have horder : byteLength front ≤ byteLength front + byteLength here := Nat.le_add_right _ _
  rw [slice?, if_pos horder, dropBytes_append, Option.bind_some, Nat.add_sub_cancel_left, takeBytes_append]

/-- A slice is what is taken behind what is dropped. -/
theorem Text.bind_of_slice {start stop : Nat} {cs here : List Char} (h : slice? start stop cs = some here) :
    (dropBytes start cs).bind (takeBytes (stop - start)) = some here := by
  unfold slice? at h
  split at h
  · exact h
  · cases h

/-! ### The lines that a reader gives -/

namespace LineReader

/-- The reader gives this line, at once or after others. -/
inductive Yields : LineReader → NumberedLine → Prop where
  | here {c c' : LineReader} {l : NumberedLine} (next : c.next? = some (l, c')) : Yields c l
  | later {c c' : LineReader} {l l' : NumberedLine} (next : c.next? = some (l', c')) (more : Yields c' l) : Yields c l

theorem yields_iff {c : LineReader} {l : NumberedLine} : c.Yields l ↔ l ∈ c.toList := by
  constructor
  · intro h
    induction h with
    | here next =>
      rw [toList_of_next?_eq_some next]
      exact List.mem_cons_self
    | later next _ ih =>
      rw [toList_of_next?_eq_some next]
      exact List.mem_cons_of_mem _ ih
  · obtain ⟨number, ahead⟩ := c
    intro h
    induction ahead generalizing number with
    | nil => cases h
    | cons text more ih =>
      have hnext : next? ⟨number, text :: more⟩ = some (⟨number + 1, text⟩, ⟨number + 1, more⟩) := rfl
      rw [toList_of_next?_eq_some hnext] at h
      rcases List.mem_cons.mp h with rfl | hmore
      · exact .here hnext
      · exact .later hnext (ih (number + 1) hmore)

end LineReader

namespace Source

/-! ### The offsets of a text -/

/-- The offsets increase. -/
theorem pairwise_offsets (cs : List Char) (offset : Nat) : (offset :: offsetsFrom offset cs).Pairwise (· < ·) := by
  induction cs using lines_induction generalizing offset with
  | last cs hcs =>
    rw [offsetsFrom_of_not_mem hcs]
    exact List.pairwise_singleton _ _
  | cons line cs hline ih =>
    rw [offsetsFrom_append hline]
    have hlater := ih (offset + byteLength (line ++ ['\n']))
    have hbytes := byteLength_concat_feed line
    refine List.pairwise_cons.mpr ⟨fun later hmem => ?_, hlater⟩
    rcases List.mem_cons.mp hmem with rfl | hmem
    · omega
    · have hlt := List.rel_of_pairwise_cons hlater hmem
      omega

/-- Where no line stands behind an offset, it is that of the end of the text, and either the text is empty or there are
lines before it. -/
theorem offset_of_no_piece {cs : List Char} {i : Nat} (h : (pieces cs)[i]? = none) {offset start : Nat}
    (hstart : (offset :: offsetsFrom offset cs)[i]? = some start) :
    start = offset + byteLength cs ∧ (cs = [] ∧ i = 0 ∨ 0 < i) := by
  induction cs using lines_induction generalizing i offset with
  | last cs hcs =>
    rw [offsetsFrom_of_not_mem hcs] at hstart
    cases i with
    | succ i => cases hstart
    | zero =>
      cases hstart
      by_cases hnil : cs = []
      · subst hnil
        exact ⟨rfl, .inl ⟨rfl, rfl⟩⟩
      · -- a text without line feeds is a line
        rw [pieces_of_not_mem hcs, if_neg hnil] at h
        cases h
  | cons line cs hline ih =>
    rw [pieces_append hline] at h
    rw [offsetsFrom_append hline] at hstart
    cases i with
    | zero => cases h
    | succ i =>
      obtain ⟨rfl, -⟩ := ih h hstart
      refine ⟨?_, .inr (Nat.succ_pos i)⟩
      rw [byteLength_append, byteLength_append, byteLength_cons, byteLength_cons, byteLength_nil]
      omega

/-- The slices between the offsets of the rest of a text, the last one up to the end, make up this rest. -/
theorem exists_slices (cs front : List Char) :
    ∃ parts : List (List Char), List.zipWith (slice? · · (front ++ cs))
        (byteLength front :: offsetsFrom (byteLength front) cs)
        (offsetsFrom (byteLength front) cs ++ [byteLength front + byteLength cs]) = parts.map some ∧
      parts.flatten = cs := by
  induction cs using lines_induction generalizing front with
  | last cs hcs =>
    refine ⟨[cs], ?_, List.append_nil cs⟩
    have hslice := slice?_append front cs []
    rw [List.append_nil] at hslice
    rw [offsetsFrom_of_not_mem hcs]
    simp [hslice]
  | cons line cs hline ih =>
    obtain ⟨parts, hparts, hflatten⟩ := ih (front ++ (line ++ ['\n']))
    have hslice := slice?_append front (line ++ ['\n']) cs
    have htext : front ++ (line ++ ['\n']) ++ cs = front ++ (line ++ ['\n'] ++ cs) := List.append_assoc ..
    have hline' : line ++ '\n' :: cs = line ++ ['\n'] ++ cs := by simp
    refine ⟨(line ++ ['\n']) :: parts, ?_, by rw [List.flatten_cons, hflatten, hline']⟩
    rw [htext, byteLength_append] at hparts
    rw [offsetsFrom_append hline, hline', List.cons_append, List.zipWith_cons_cons, hslice, List.map_cons,
      byteLength_append (line ++ ['\n']) cs, ← Nat.add_assoc, hparts]

/-! ### Cutting lines out of the text -/

variable {source : Source} {number : Nat}

/-- The bytes between which the line with this number is cut out of the text: from its offset up to the line feed before
the next one, or up to the end of the text. -/
def cut? (s : Source) (number : Nat) : Option (Nat × Nat) :=
  let size := byteLength s.text.toList
  match number with
  | 0 => none
  | before + 1 =>
    match s.lineOffsets[before]? with
    | none => none
    | some start =>
      if size < start ∨ start = size ∧ 0 < before then none
      else some (start, s.lineOffsets[before + 1]?.elim size (· - 1))

/-- A line is shown by cutting it out of the text. -/
theorem line?_eq_cut (source : Source) (number : Nat) :
    source.line? number = (source.cut? number).bind fun cut =>
      ((dropBytes cut.1 source.text.toList).bind (takeBytes (cut.2 - cut.1))).map fun cs =>
        String.ofList (trimReturns cs) := by
  unfold line? cut?
  cases number with
  | zero => rfl
  | succ before =>
    dsimp only
    cases source.lineOffsets[before]? with
    | none => rfl
    | some start =>
      dsimp only
      split
      · rfl
      · rfl

/-- What a cut needs: an offset, which is not that of the end of the text behind other lines. -/
theorem of_cut {start stop : Nat} (h : source.cut? number = some (start, stop)) :
    ∃ before, number = before + 1 ∧ source.lineOffsets[before]? = some start ∧
      ¬(byteLength source.text.toList < start ∨ start = byteLength source.text.toList ∧ 0 < before) ∧
      stop = source.lineOffsets[before + 1]?.elim (byteLength source.text.toList) (· - 1) := by
  unfold cut? at h
  cases number with
  | zero => cases h
  | succ before =>
    dsimp only at h
    cases hoffset : source.lineOffsets[before]? with
    | none => rw [hoffset] at h; cases h
    | some offset =>
      rw [hoffset] at h
      dsimp only at h
      split at h
      · cases h
      · next hinside =>
        cases h
        exact ⟨before, rfl, hoffset, hinside, rfl⟩

/-- Where the text is cut there is a line, or the text is empty and the line would be the first one. -/
theorem piece_of_cut {before start stop : Nat} (h : source.cut? (before + 1) = some (start, stop)) :
    (∃ piece, (pieces source.text.toList)[before]? = some piece) ∨ source.text.toList = [] ∧ before = 0 := by
  obtain ⟨_, heq, hoffset, hinside, -⟩ := of_cut h
  obtain rfl := Nat.succ.inj heq
  cases hpiece : (pieces source.text.toList)[before]? with
  | some piece => exact .inl ⟨piece, rfl⟩
  | none =>
    obtain ⟨hend, hempty | hlater⟩ := offset_of_no_piece hpiece hoffset
    · exact .inr hempty
    · omega

/-- The bytes between which a line is cut out are in order, inside the text and between two characters. -/
theorem exists_slice_of_cut {start stop : Nat} (h : source.cut? number = some (start, stop)) :
    ∃ cs, slice? start stop source.text.toList = some cs := by
  obtain ⟨before, rfl, hoffset, -, hend⟩ := of_cut h
  rcases piece_of_cut h with ⟨piece, hpiece⟩ | ⟨hnil, rfl⟩
  · obtain ⟨front, back, htext, hstart, hstop⟩ := exists_split_of_piece hpiece 0
    rw [Nat.zero_add] at hstart hstop
    obtain rfl : start = byteLength front := Option.some.inj (hoffset.symm.trans hstart)
    rcases hstop with ⟨line, rfl, hnext⟩ | ⟨-, -, rfl, hnext⟩
    · -- the next offset stands one byte behind the line feed
      have hbytes := byteLength_concat_feed line
      have hstop : stop = byteLength front + byteLength line := by
        rw [hend, lineOffsets, hnext, Option.elim_some]
        omega
      exact ⟨line, by rw [hstop, htext, List.append_assoc line, slice?_append]⟩
    · have hstop : stop = byteLength front + byteLength piece := by
        rw [hend, lineOffsets, hnext, Option.elim_none, htext, List.append_nil, byteLength_append]
      exact ⟨piece, by rw [hstop, htext, slice?_append]⟩
  · have hfirst : source.lineOffsets = [0] := by rw [lineOffsets, hnil]; rfl
    rw [hfirst] at hoffset hend
    cases hoffset
    rw [hnil] at hend ⊢
    exact ⟨[], by rw [hend]; rfl⟩

/-- A line can be shown exactly if the reader gives one with its number, unless the text is empty. -/
theorem isSome_line?_iff (htext : source.text ≠ "") :
    (source.line? number).isSome = true ↔ ∃ l, source.reader.Yields l ∧ l.number = number := by
  constructor
  · intro h
    cases hcut : source.cut? number with
    | none =>
      rw [line?_eq_cut, hcut] at h
      cases h
    | some cut =>
      obtain ⟨start, stop⟩ := cut
      obtain ⟨before, rfl, -, -, -⟩ := of_cut hcut
      rcases piece_of_cut hcut with ⟨piece, hpiece⟩ | ⟨hnil, -⟩
      · have hget : source.lineTexts[before]? = some (String.ofList (content piece)) := by
          rw [lineTexts, List.getElem?_map, hpiece]
          rfl
        have hline : source.lines[before]? = some ⟨0 + before + 1, String.ofList (content piece)⟩ := by
          rw [lines, reader, LineReader.toList, LineReader.getElem?_numberFrom, hget]
          rfl
        refine ⟨_, LineReader.yields_iff.mpr (List.mem_of_getElem? hline), ?_⟩
        show 0 + before + 1 = before + 1
        omega
      · exact absurd (String.toList_eq_nil_iff.mp hnil) htext
  · rintro ⟨l, hl, rfl⟩
    obtain ⟨-, -, -, hshown⟩ := number_of_mem_lines (LineReader.yields_iff.mp hl)
    rw [hshown]
    rfl

/-- An empty text has no lines, but shows an empty first one. -/
theorem line?_of_empty (htext : source.text = "") : source.line? number = if number = 1 then some "" else none := by
  have hnil : source.text.toList = [] := by rw [htext]; rfl
  unfold line?
  rw [lineOffsets, hnil]
  cases number with
  | zero => rfl
  | succ before =>
    cases before with
    | zero => rfl
    | succ before => simp [offsetsFrom]

/-- `Source.line?` and `LineReader.Yields` have the same lines under the same numbers, unless the text is empty.  Every
`Source.cut?` is a slice of the text, and the slices between the `Source.lineOffsets` give back the text. -/
theorem index_agrees (source : Source) :
    (source.text ≠ "" → ∀ number,
      ((source.line? number).isSome = true ↔ ∃ l, source.reader.Yields l ∧ l.number = number) ∧
      ∀ l, source.reader.Yields l → l.number = number →
        source.line? number = some (String.ofList (trimReturns l.text.toList))) ∧
    (source.text = "" → (∀ l, ¬source.reader.Yields l) ∧
      ∀ number, source.line? number = if number = 1 then some "" else none) ∧
    (∀ number, source.cut? number = none ∧ source.line? number = none ∨
      ∃ start stop cs, source.cut? number = some (start, stop) ∧ slice? start stop source.text.toList = some cs ∧
        source.line? number = some (String.ofList (trimReturns cs))) ∧
    source.lineOffsets.head? = some 0 ∧ source.lineOffsets.Pairwise (· < ·) ∧
    ∃ parts : List (List Char), List.zipWith (slice? · · source.text.toList) source.lineOffsets
        (source.lineOffsets.tail ++ [byteLength source.text.toList]) = parts.map some ∧
      parts.flatten = source.text.toList := by
  refine ⟨fun htext number => ⟨isSome_line?_iff htext, ?_⟩, fun htext => ⟨?_, fun _ => line?_of_empty htext⟩, ?_, rfl,
    pairwise_offsets _ 0, ?_⟩
  · rintro l hl rfl
    exact (number_of_mem_lines (LineReader.yields_iff.mp hl)).2.2.2
  · intro l hl
    have hlines : source.reader.toList = [] := by
      rw [LineReader.toList, reader, lineTexts, htext]
      rfl
    have hmem := LineReader.yields_iff.mp hl
    rw [hlines] at hmem
    cases hmem
  · intro number
    cases hcut : source.cut? number with
    | none => exact .inl ⟨rfl, by rw [line?_eq_cut, hcut]; rfl⟩
    | some cut =>
      obtain ⟨start, stop⟩ := cut
      obtain ⟨cs, hslice⟩ := exists_slice_of_cut hcut
      refine .inr ⟨start, stop, cs, rfl, hslice, ?_⟩
      rw [line?_eq_cut, hcut, Option.bind_some, bind_of_slice hslice, Option.map_some]
  · obtain ⟨parts, hparts, hflatten⟩ := exists_slices source.text.toList []
    rw [byteLength_nil, Nat.zero_add] at hparts
    exact ⟨parts, hparts, hflatten⟩

/-- The first character takes two bytes, and no line stands behind the last line feed. -/
example :
    let source : Source := ⟨"a", "é\r\r\n\nx\n"⟩
    source.lineOffsets = [0, 5, 6, 8] ∧ source.cut? 1 = some (0, 4) ∧ source.line? 1 = some "é" ∧
      source.line? 4 = none := by decide +kernel

end Source

end LineCheck
