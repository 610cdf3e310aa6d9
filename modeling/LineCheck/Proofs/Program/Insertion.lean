import LineCheck.Proofs.Pass.Mirror
import LineCheck.Proofs.Program.Segment
import LineCheck.Proofs.Source.Lines

/-!
# LineCheck.Proofs.Program.Insertion — lines that say nothing

A blank line or a comment that is put between two lines of a program, wherever that is, changes the numbers of the
lines behind it and nothing else: the verdict stays, with the number of its line moved on by one if the line stands
behind the new one (`verdict_of_insertion`).
-/

namespace LineCheck

open LineReader Text

namespace Source

/-- The source with these lines, each with a line feed at its end. -/
def ofLines (name : String) (lines : List String) : Source :=
  ⟨name, String.ofList (lines.flatMap fun line => line.toList ++ ['\n'])⟩

/-- The text has no line feed, so it can be a line. -/
def IsLine (text : String) : Prop :=
  '\n' ∉ text.toList

instance (text : String) : Decidable (IsLine text) :=
  inferInstanceAs (Decidable ('\n' ∉ text.toList))

/-- The line without a carriage return at its end. -/
def withoutReturn (line : String) : String :=
  String.ofList (content (line.toList ++ ['\n']))

theorem pieces_flatMap {lines : List String} (h : ∀ line ∈ lines, IsLine line) :
    pieces (lines.flatMap fun line => line.toList ++ ['\n']) = lines.map fun line => line.toList ++ ['\n'] := by
  induction lines with
  | nil => rfl
  | cons line lines ih =>
    obtain ⟨hline, hmore⟩ := List.forall_mem_cons.mp h
    rw [List.flatMap_cons, List.append_assoc, List.singleton_append, pieces_append hline, ih hmore, List.map_cons]

theorem lineTexts_ofLines (name : String) {lines : List String} (h : ∀ line ∈ lines, IsLine line) :
    (ofLines name lines).lineTexts = lines.map withoutReturn := by
  rw [lineTexts, ofLines, String.toList_ofList, pieces_flatMap h, List.map_map]
  rfl

theorem lines_ofLines (name : String) {lines : List String} (h : ∀ line ∈ lines, IsLine line) :
    (ofLines name lines).lines = numberFrom 0 (lines.map withoutReturn) := by
  rw [← lineTexts_ofLines name h]
  rfl

/-- A line that says nothing says nothing either without the carriage return at its end. -/
theorem silent_withoutReturn {line : String} (h : allBlank line = true ∨ isComment line = true) :
    allBlank (withoutReturn line) = true ∨ isComment (withoutReturn line) = true := by
  rw [allBlank_iff, isComment_iff] at h ⊢
  rw [withoutReturn, String.toList_ofList]
  generalize hcontent : content (line.toList ++ ['\n']) = cs
  have hline := eq_content_or line.toList
  rw [hcontent] at hline
  obtain heq | heq := hline
  · rwa [heq] at h
  · rw [heq] at h
    refine h.imp (fun hblank c hc => hblank c (List.mem_append_left _ hc)) fun hcomment => ?_
    refine (List.prefix_concat_iff.mp hcomment).resolve_left fun hslashes => ?_
    -- the second slash would be the carriage return
    have hlast := congrArg List.getLast? hslashes
    rw [List.getLast?_concat] at hlast
    exact absurd hlast (by decide)

end Source

/-! ### One line more -/

theorem NumberedLine.exists_reads_of_silent {l : NumberedLine} (h : allBlank l.text = true ∨ isComment l.text = true) :
    ∃ statement, l.Reads statement ∧ statement.isSilent = true := by
  by_cases hblank : allBlank l.text = true
  · exact ⟨.blank, ⟨⟨l.number, [], .blank⟩, if_pos hblank, rfl⟩, rfl⟩
  · have hcomment := h.resolve_left hblank
    exact ⟨.comment, ⟨⟨l.number, [l.text], .comment⟩, by rw [Line.ofText, if_neg hblank, if_pos hcomment], rfl⟩, rfl⟩

/-- Lines that read as the same statements, and have the same braces, correspond under other numbers. -/
theorem NumberedLine.mirrors_of_textReads {f : Nat → Nat} {number number' : Nat} {text text' : String}
    (hnumber : number' = f number) (hbraces : netBraces text' = netBraces text)
    (hreads : ∀ statement, TextReads text' statement ↔ TextReads text statement) :
    Mirrors .id f ⟨number, text⟩ ⟨number', text'⟩ where
  number := hnumber
  braces := hbraces
  statement := by
    have hsame : statement? ⟨number', text'⟩ = statement? ⟨number, text⟩ := by
      refine Option.ext fun statement => ?_
      rw [← reads_iff, ← reads_iff, reads_iff_textReads, reads_iff_textReads]
      exact hreads statement
    rw [hsame]
    cases statement? ⟨number, text⟩ with
    | none => exact .none
    | some statement => exact .some statement.alike_refl

/-- A line corresponds to itself under another number. -/
theorem NumberedLine.mirrors_self {f : Nat → Nat} {number number' : Nat} (hnumber : number' = f number)
    (text : String) : Mirrors .id f ⟨number, text⟩ ⟨number', text⟩ :=
  mirrors_of_textReads hnumber rfl fun _ => Iff.rfl

namespace Mirrors

variable {r : Renaming} {f : Nat → Nat}

theorem append {ls ls' ms ms' : List NumberedLine} (h : Mirrors r f ls ls') (hmore : Mirrors r f ms ms') :
    Mirrors r f (ls ++ ms) (ls' ++ ms') := by
  induction h with
  | nil => exact hmore
  | cons hline _ ih => exact .cons hline ih
  | insert hreads hsilent _ ih => exact .insert hreads hsilent ih

/-- The same lines under other numbers. -/
theorem numberFrom_self {texts : List String} {number number' : Nat}
    (hf : ∀ i < texts.length, number' + i + 1 = f (number + i + 1)) :
    Mirrors .id f (numberFrom number texts) (numberFrom number' texts) := by
  induction texts generalizing number number' with
  | nil => exact .nil
  | cons text texts ih =>
    refine .cons (NumberedLine.mirrors_self (hf 0 (Nat.zero_lt_succ _)) text) (ih fun i hi => ?_)
    have hnext := hf (i + 1) (Nat.succ_lt_succ hi)
    rwa [← Nat.add_assoc, Nat.add_right_comm number' i 1, ← Nat.add_assoc, Nat.add_right_comm number i 1] at hnext

end Mirrors

/-- The number of a line after one more line has been put in behind the first `p` lines. -/
def shiftBehind (p n : Nat) : Nat :=
  if n ≤ p then n else n + 1

theorem mirrors_insertion (texts : List String) (p : Nat) {new : String}
    (hsilent : allBlank new = true ∨ isComment new = true) :
    Mirrors .id (shiftBehind p) (numberFrom 0 texts) (numberFrom 0 (texts.take p ++ new :: texts.drop p)) := by
  have hsplit : numberFrom 0 texts =
      numberFrom 0 (texts.take p) ++ numberFrom (0 + (texts.take p).length) (texts.drop p) := by
    rw [← numberFrom_append, List.take_append_drop]
  obtain ⟨statement, hreads, hquiet⟩ :=
    NumberedLine.exists_reads_of_silent (l := ⟨0 + (texts.take p).length + 1, new⟩) hsilent
  rw [hsplit, numberFrom_append, numberFrom]
  refine .append (.numberFrom_self fun i hi => ?_) (.insert hreads hquiet (.numberFrom_self fun i hi => ?_))
  · rw [List.length_take] at hi
    rw [shiftBehind, if_pos (by omega)]
  · rw [List.length_drop] at hi
    rw [List.length_take, shiftBehind, if_neg (by omega)]
    omega

open Source

/-- A blank line or a comment, put in behind the first `p` lines, changes the numbers of the lines behind it and nothing
else. -/
theorem verdict_of_insertion (name : String) {lines : List String} (hlines : ∀ line ∈ lines, IsLine line) (p : Nat)
    {new : String} (hnew : IsLine new) (hsilent : allBlank new = true ∨ isComment new = true) :
    (ofLines name (lines.take p ++ new :: lines.drop p)).verdict =
      (ofLines name lines).verdict.mapError (Rejection.renumber (shiftBehind p)) := by
  have hlines' : ∀ line ∈ lines.take p ++ new :: lines.drop p, IsLine line := by
    refine List.forall_mem_append.mpr ⟨fun line hline => hlines line (List.mem_of_mem_take hline), ?_⟩
    exact List.forall_mem_cons.mpr ⟨hnew, fun line hline => hlines line (List.mem_of_mem_drop hline)⟩
  apply Source.verdict_of_mirrors (r := .id)
  rw [lines_ofLines name hlines, lines_ofLines name hlines', List.map_append, List.map_cons, List.map_take,
    List.map_drop]
  exact mirrors_insertion (lines.map withoutReturn) p (silent_withoutReturn hsilent)

/-- A function, and behind it a `return` that has no place there. -/
def strayReturn : List String :=
  ["void f() \x7b", "  return;", "\x7d", "return;"]

/-- A comment with a quote and braces between the last `return` of a function and its end. -/
theorem verdict_of_insertion_comment :
    (ofLines "stray" strayReturn).verdict = .error (.atLine 4 .invalidActionInGlobalScope) ∧
      (ofLines "stray" (strayReturn.take 2 ++ "// \" \x7d\x7d" :: strayReturn.drop 2)).verdict =
        .error (.atLine 5 .invalidActionInGlobalScope) := by
  have hverdict : (ofLines "stray" strayReturn).verdict = .error (.atLine 4 .invalidActionInGlobalScope) := by
    decide +kernel
  have hlines : ∀ line ∈ strayReturn, IsLine line := by decide
  have hnew : IsLine "// \" \x7d\x7d" := by decide
  have hsame := verdict_of_insertion "stray" hlines 2 hnew (.inr (by decide))
  rw [hverdict] at hsame
  exact ⟨hverdict, hsame⟩

end LineCheck
