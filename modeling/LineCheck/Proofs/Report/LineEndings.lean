import LineCheck.Proofs.Program.Insertion
import LineCheck.Proofs.Report.Location
import LineCheck.Proofs.Syntax.Gap

/-!
# LineCheck.Proofs.Report.LineEndings — how lines end does not matter

Lines may end with a line feed, or with carriage returns and a line feed, and the last line may have no line feed.  A
line keeps some of its carriage returns when it is read and loses all of them when it is shown; but those at its end are
no part of what it says (`textReads_trimReturns`).  So sources that are the same line by line up to carriage returns at
the ends of the lines (`Source.SameLines`) have the same outcome (`Outcome.ofSource_of_sameLines`), whichever way their
lines end (`Outcome.ofSource_lineEndings`).
-/

namespace LineCheck

open LineReader Source Text

/-! ### Carriage returns at the end of a line -/

/-- What takes no notice of one carriage return at the end takes none of several. -/
theorem trimReturns_iff {P : List Char → Prop} (hreturn : ∀ cs, P (cs ++ ['\r']) ↔ P cs) (cs : List Char) :
    P (trimReturns cs) ↔ P cs := by
  induction cs using List.reverseRecOn with
  | nil => exact Iff.rfl
  | append_singleton cs c ih =>
    by_cases hc : c = '\r'
    · rw [hc, trimReturns_concat, ih, hreturn]
    · have hsame : trimReturns (cs ++ [c]) = cs ++ [c] := by simp [trimReturns, hc]
      rw [hsame]

theorem ofList_concat (cs : List Char) (c : Char) : String.ofList (cs ++ [c]) = (String.ofList cs).push c := by
  apply String.toList_inj.mp
  rw [String.toList_push, String.toList_ofList, String.toList_ofList]

/-- A line says the same without the carriage returns at its end. -/
theorem textReads_trimReturns {cs : List Char} {statement : Statement} :
    TextReads (String.ofList (trimReturns cs)) statement ↔ TextReads (String.ofList cs) statement := by
  refine trimReturns_iff (P := fun cs => TextReads (String.ofList cs) statement) (fun cs => ?_) cs
  rw [ofList_concat, TextReads, TextReads, NumberedLine.Reads, NumberedLine.Reads, ← Line.map_statement_eq_ok_iff,
    ← Line.map_statement_eq_ok_iff]
  exact Line.map_statement_push_gap rfl

/-- A line has the same braces without the carriage returns at its end. -/
theorem netBraces_trimReturns (cs : List Char) :
    netBraces (String.ofList (trimReturns cs)) = netBraces (String.ofList cs) := by
  refine (trimReturns_iff (P := fun ds => netBraces (String.ofList ds) = netBraces (String.ofList cs)) (fun ds => ?_)
    cs).mpr rfl
  rw [ofList_concat, netBraces_push_gap rfl]

/-! ### Sources with the same lines -/

/-- The lines are the same but for the carriage returns at their ends. -/
def SameLine (text text' : String) : Prop :=
  trimReturns text'.toList = trimReturns text.toList

/-- The sources are the same line by line, but for the carriage returns at the ends of the lines. -/
def Source.SameLines (source source' : Source) : Prop :=
  List.Forall₂ SameLine source.lineTexts source'.lineTexts

theorem SameLine.mirrors {text text' : String} (h : SameLine text text') (number : Nat) :
    NumberedLine.Mirrors .id (fun n => n) ⟨number, text⟩ ⟨number, text'⟩ := by
  have htrim : String.ofList (trimReturns text'.toList) = String.ofList (trimReturns text.toList) := congrArg _ h
  refine NumberedLine.mirrors_of_textReads rfl ?_ fun statement => ?_
  · rw [← String.ofList_toList (s := text'), ← netBraces_trimReturns, htrim, netBraces_trimReturns,
      String.ofList_toList]
  · rw [← String.ofList_toList (s := text'), ← textReads_trimReturns, htrim, textReads_trimReturns,
      String.ofList_toList]

theorem mirrors_of_sameLines {texts texts' : List String} (h : List.Forall₂ SameLine texts texts') (number : Nat) :
    Mirrors .id (fun n => n) (numberFrom number texts) (numberFrom number texts') := by
  induction h generalizing number with
  | nil => exact .nil
  | cons hline _ ih => exact .cons (hline.mirrors _) (ih (number + 1))

variable {source source' : Source}

/-- A line that is shown is the same in both sources. -/
theorem Source.SameLines.line?_eq (h : source.SameLines source') {l : NumberedLine} (hl : l ∈ source.lines) :
    source'.line? l.number = source.line? l.number := by
  obtain ⟨i, hi⟩ := List.mem_iff_getElem?.mp hl
  have hmap : source.lineTexts[i]?.map (NumberedLine.mk (0 + i + 1)) = some l :=
    (getElem?_numberFrom 0 source.lineTexts i).symm.trans hi
  obtain ⟨text, htext, rfl⟩ := Option.map_eq_some_iff.mp hmap
  obtain ⟨text', htext', hline⟩ : ∃ text', source'.lineTexts[i]? = some text' ∧ SameLine text text' := by
    obtain ⟨hlt, rfl⟩ := List.getElem?_eq_some_iff.mp htext
    have hlt' : i < source'.lineTexts.length := h.length_eq ▸ hlt
    exact ⟨source'.lineTexts[i], List.getElem?_eq_getElem hlt', h.get hlt hlt'⟩
  show source'.line? (0 + i + 1) = source.line? (0 + i + 1)
  rw [Nat.zero_add, line?_of_lineTexts htext, line?_of_lineTexts htext', hline]

/-- Sources with the same lines have the same outcome, whatever stands at the ends of the lines. -/
theorem Outcome.ofSource_of_sameLines (h : source.SameLines source') (hname : source'.name = source.name) :
    ofSource source' = ofSource source := by
  have hverdict : source'.verdict = source.verdict := verdict_eq_of_mirrors (mirrors_of_sameLines h 0)
  rw [ofSource, ofSource, hverdict]
  cases hr : source.verdict with
  | ok _ => rfl
  | error r =>
    have hrefused := refusedFor_of_verdict hr
    show illegal r (r.diagnostic source') = illegal r (r.diagnostic source)
    rw [Rejection.diagnostic, Rejection.diagnostic, hname]
    cases hline : r.line with
    | none => rfl
    | some n =>
      obtain ⟨l, hmem, rfl⟩ := hrefused.exists_line hline
      dsimp only
      rw [h.line?_eq hmem]

/-! ### Two ways in which lines may end -/

/-- A carriage return is put before each line feed. -/
def returnsBeforeFeeds (cs : List Char) : List Char :=
  cs.flatMap fun c => if c = '\n' then ['\r', '\n'] else [c]

/-- A line feed is put at the end, unless there is one or there is nothing else. -/
def feedAtEnd (cs : List Char) : List Char :=
  if cs.getLast?.all (· == '\n') then cs else cs ++ ['\n']

namespace Source

/-- The source with a carriage return before each line feed. -/
def withReturns (source : Source) : Source :=
  ⟨source.name, String.ofList (returnsBeforeFeeds source.text.toList)⟩

/-- The source with a line feed at the end of its last line. -/
def withLastFeed (source : Source) : Source :=
  ⟨source.name, String.ofList (feedAtEnd source.text.toList)⟩

end Source

/-- The pieces of two texts hold the same lines. -/
def SamePieces (cs ds : List Char) : Prop :=
  List.Forall₂ (fun p q => trimReturns (content q) = trimReturns (content p)) (pieces cs) (pieces ds)

theorem SamePieces.refl (cs : List Char) : SamePieces cs cs :=
  List.forall₂_same.mpr fun _ _ => rfl

/-- One line in front of both texts, with or without a carriage return. -/
theorem SamePieces.cons {cs ds : List Char} (h : SamePieces cs ds) {line line' : List Char} (hline : '\n' ∉ line)
    (hline' : '\n' ∉ line') (hsame : trimReturns line' = trimReturns line) :
    SamePieces (line ++ '\n' :: cs) (line' ++ '\n' :: ds) := by
  rw [SamePieces, pieces_append hline, pieces_append hline']
  refine .cons ?_ h
  rw [trimReturns_content, trimReturns_content, hsame]

/-- Nothing is put into a text without line feeds. -/
theorem returnsBeforeFeeds_of_not_mem {cs : List Char} (h : '\n' ∉ cs) : returnsBeforeFeeds cs = cs := by
  induction cs with
  | nil => rfl
  | cons c cs ih =>
    rw [returnsBeforeFeeds, List.flatMap_cons, if_neg (List.ne_of_not_mem_cons h).symm, ← returnsBeforeFeeds,
      ih (List.not_mem_of_not_mem_cons h)]
    rfl

theorem samePieces_returnsBeforeFeeds (cs : List Char) : SamePieces cs (returnsBeforeFeeds cs) := by
  induction cs using lines_induction with
  | last cs hcs =>
    rw [returnsBeforeFeeds_of_not_mem hcs]
    exact .refl cs
  | cons line cs hline ih =>
    have hsplit : returnsBeforeFeeds (line ++ '\n' :: cs) = (line ++ ['\r']) ++ '\n' :: returnsBeforeFeeds cs := by
      rw [returnsBeforeFeeds, List.flatMap_append, ← returnsBeforeFeeds, returnsBeforeFeeds_of_not_mem hline,
        List.flatMap_cons, if_pos rfl, ← returnsBeforeFeeds, List.append_assoc]
      rfl
    rw [hsplit]
    exact ih.cons hline (by simpa using hline) (trimReturns_concat line)

theorem samePieces_feedAtEnd (cs : List Char) : SamePieces cs (feedAtEnd cs) := by
  induction cs using lines_induction with
  | last cs hcs =>
    cases hlast : cs.getLast? with
    | none => rw [List.getLast?_eq_none_iff.mp hlast]; exact .nil
    | some c =>
      have hc : c ≠ '\n' := fun hc => hcs (hc ▸ List.mem_of_getLast? hlast)
      have hne : cs ≠ [] := by rintro rfl; cases hlast
      have hfeed : feedAtEnd cs = cs ++ '\n' :: [] := by simp [feedAtEnd, hlast, hc]
      -- the only line has now a line feed, which is no part of it
      rw [hfeed, SamePieces, pieces_append hcs, pieces_of_not_mem hcs, if_neg hne]
      refine .cons ?_ .nil
      rw [trimReturns_content, content_of_not_mem hcs]
  | cons line cs hline ih =>
    have hsplit : feedAtEnd (line ++ '\n' :: cs) = line ++ '\n' :: feedAtEnd cs := by
      have hlast : (line ++ '\n' :: cs).getLast?.all (· == '\n') = cs.getLast?.all (· == '\n') := by
        cases cs <;> simp [List.getLast?_cons]
      rw [feedAtEnd, feedAtEnd, hlast]
      split
      · rfl
      · rw [List.append_assoc, List.cons_append]
    rw [hsplit]
    exact ih.cons hline hline rfl

theorem Source.sameLines_of_samePieces {cs : List Char} (h : SamePieces source.text.toList cs) (name : String) :
    source.SameLines ⟨name, String.ofList cs⟩ := by
  rw [SameLines, lineTexts, lineTexts, String.toList_ofList, List.forall₂_map_left_iff, List.forall₂_map_right_iff]
  exact h.imp fun p q hpq => by rw [SameLine, String.toList_ofList, String.toList_ofList, hpq]

/-- A carriage return before each line feed and a line feed at the end of the last line do not change the outcome,
neither one of them nor both, in whichever order. -/
theorem Outcome.ofSource_lineEndings (source : Source) :
    ofSource source.withReturns = ofSource source ∧ ofSource source.withLastFeed = ofSource source ∧
      ofSource source.withReturns.withLastFeed = ofSource source ∧
      ofSource source.withLastFeed.withReturns = ofSource source := by
  have hreturns : ∀ s : Source, ofSource s.withReturns = ofSource s := fun s =>
    ofSource_of_sameLines (sameLines_of_samePieces (samePieces_returnsBeforeFeeds _) _) rfl
  have hfeed : ∀ s : Source, ofSource s.withLastFeed = ofSource s := fun s =>
    ofSource_of_sameLines (sameLines_of_samePieces (samePieces_feedAtEnd _) _) rfl
  exact ⟨hreturns source, hfeed source, (hfeed _).trans (hreturns source), (hreturns _).trans (hfeed source)⟩

end LineCheck
