import LineCheck.Proofs.Pass.Alignment
import LineCheck.Proofs.Pass.Refusal

/-!
# LineCheck.Proofs.Pass.Localisation — where the second pass can fail

Once the first pass has come to the end of a program, most of what can be wrong with a line outside functions cannot be
wrong any more: such a line has been read already, its assignments have been made already, and a closing brace would
have had nothing to close.  So the second pass fails in the lines of a function, or at an action that has no place
outside functions, and always at a line (`refused_line`).
-/

namespace LineCheck

open Traced

variable {source : Source} {c : Collector}

/-- Only the header of a function takes the second pass into blocks. -/
theorem Checker.reads_function_of_entered {functions : Functions} {s s' : Checker} {l : NumberedLine}
    (hs : (s.step functions l).result = .ok s') (houtside : s.blocks = []) (hinside : s'.blocks ≠ []) :
    ∃ h, l.Reads (.function h) := by
  cases (result_step_outside_iff houtside).mp hs with
  | idle _ _ => exact absurd houtside hinside
  | replay _ _ => exact absurd houtside hinside
  | enter hl _ => exact ⟨_, hl⟩
  | stray _ _ => exact absurd houtside hinside

/-- A line that the second pass reads inside blocks is one of the lines of a function. -/
theorem exists_records_of_inside (hc : (Collector.run source).result = .ok c) {s : Checker} {l : NumberedLine}
    {rest : List NumberedLine} (hreaches : Checker.Reaches source c s l rest) (hinside : s.blocks ≠ []) :
    ∃ first h body after, Collector.Records source first h body after ∧ l ∈ body := by
  obtain ⟨before, hsplit, hs⟩ := hreaches
  -- the line that has led into the function
  have hstart : ¬({ scopes := c.scopes } : Checker).InBlock := not_not_intro rfl
  obtain ⟨earlier, first, part, s₁, s₂, rfl, hearlier, hout₁, hs₂, hin₂, hpart⟩ :=
    exists_through_of_entered hs hstart hinside
  have houtside : s₁.blocks = [] := not_not.mp hout₁
  obtain ⟨h, hheader⟩ := Checker.reads_function_of_entered hs₂ houtside hin₂
  have hreaches₁ : Checker.Reaches source c s₁ first (part ++ l :: rest) := ⟨earlier, by simp [hsplit], hearlier⟩
  obtain ⟨-, body, after, hrest, hrecords⟩ := exists_records hc hreaches₁ houtside hheader
  refine ⟨first, h, body, after, hrecords, ?_⟩
  have hprefix : part <+: body ++ after := hrest ▸ List.prefix_append _ _
  obtain ⟨hleft, -⟩ | ⟨-, next, more, rfl⟩ := read_of_records hc hrecords (hrest ▸ hreaches₁) hs₂ hprefix hpart
  · exact absurd hleft hinside
  · -- the next line of the function is the one that is read
    rw [List.append_assoc] at hrest
    obtain ⟨rfl, -⟩ := List.cons.inj (List.append_cancel_left hrest)
    exact List.mem_append_right _ List.mem_cons_self

/-- The second pass comes to the end of the lines outside blocks. -/
theorem closed_of_leads (hc : (Collector.run source).result = .ok c) {s : Checker}
    (hs : Leads (Checker.step c.functions) { scopes := c.scopes } source.lines s) : s.blocks = [] ∧ s.depth = 0 := by
  obtain ⟨c', hc', hnil, haligned⟩ := exists_aligned hc (List.append_nil _).symm hs
  rw [leads_nil.mp hnil] at haligned
  have hblocks := haligned.skip_eq_none_iff.mp (Collector.result_run_eq_ok_iff.mp hc).2.1
  exact ⟨hblocks, by rw [haligned.lockstep.depth, hblocks, List.length_nil]⟩

/-- The second pass fails at a line, and leaves the blocks that are open then. -/
theorem exists_refused (hc : (Collector.run source).result = .ok c) {stop : Stop Checker}
    (hs : (Checker.run source c.functions c.scopes).result = .error stop) :
    ∃ s l rest state, Checker.Reaches source c s l rest ∧
      (s.step c.functions l).result = .error ⟨stop.rejection, state⟩ ∧ stop.state = state.unwind := by
  obtain ⟨state, hunwind, ⟨s, l, rest, hreaches, hl⟩ | ⟨s, hlead, hend⟩⟩ := Checker.refused_of_run hs
  · exact ⟨s, l, rest, state, hreaches, hl, hunwind⟩
  · -- at the end of the lines no block is open
    obtain ⟨hblocks, hdepth⟩ := closed_of_leads hc hlead
    obtain ⟨hopen, -⟩ := Checker.result_finish_eq_error hend
    exact absurd hopen (not_or.mpr ⟨not_not_intro hblocks, not_not_intro hdepth⟩)

/-- Why a line is refused, if the first pass has come to its end: outside functions for an action that has no place
there or for the parameters of a function, inside for a rule of the lines of functions. -/
theorem violation_of_refused (hc : (Collector.run source).result = .ok c) {s : Checker} {l : NumberedLine}
    {rest : List NumberedLine} {r : Rejection} (hreaches : Checker.Reaches source c s l rest) (hr : s.Refuses l r) :
    ∃ v, r = .atLine l.number v ∧
      (s.blocks = [] ∧ ((∃ h, l.Reads (.function h)) ∧ v ∈ Violation.ofRules ∨
          (∃ statement, l.Reads statement ∧ statement.isAction = true) ∧ v = .invalidActionInGlobalScope) ∨
        s.blocks ≠ [] ∧
          (v ∈ Violation.ofRules ∨ v = .invalidSyntax ∨ v = .invalidScopeFunctionDeclaration ∨
            v = .lastLineNotReturn)) := by
  obtain ⟨before, hsplit, hs⟩ := hreaches
  obtain ⟨c₁, hbefore, hrest, haligned⟩ := exists_aligned hc hsplit hs
  obtain ⟨c₂, hc₂, hrest⟩ := leads_cons.mp hrest
  have hgrows := (haligned.extends_of_leads hc₂ hrest).env
  cases hr with
  | unread none =>
    refine ⟨_, rfl, .inr ⟨fun houtside => ?_, .inr (.inl rfl)⟩⟩
    -- outside functions the first pass has read the line
    obtain ⟨statement, hl⟩ := Collector.reads_of_step (haligned.skip_eq_none_iff.mpr houtside) hc₂
    exact none statement hl
  | replay houtside hl fails =>
    -- the assignments are legal after all of those that the first pass has made
    obtain ⟨scopes, hok, -⟩ := exists_performAll l.number (haligned.replay houtside hl hc₂ hgrows)
    exact absurd hok (fails scopes)
  | params houtside hl hv => exact ⟨_, rfl, .inl ⟨houtside, .inl ⟨⟨_, hl⟩, hv⟩⟩⟩
  | action houtside hl haction => exact ⟨_, rfl, .inl ⟨houtside, .inr ⟨⟨_, hl, haction⟩, rfl⟩⟩⟩
  | stray hl closed =>
    have houtside : s.blocks = [] := List.length_eq_zero_iff.mp (haligned.lockstep.depth.symm.trans closed)
    -- the first pass would have had nothing to close either
    rw [Collector.result_step_of_reads (haligned.skip_eq_none_iff.mpr houtside) hl] at hc₂
    simp only [Collector.perform, Collector.closeBlock, haligned.flat.depth] at hc₂
    cases hc₂
  | rule hinside hv => exact ⟨_, rfl, .inr ⟨hinside, .inl hv⟩⟩
  | nested hinside => exact ⟨_, rfl, .inr ⟨hinside, .inr (.inr (.inl rfl))⟩⟩
  | unreturned hinside => exact ⟨_, rfl, .inr ⟨hinside, .inr (.inr (.inr rfl))⟩⟩

/-- The second pass fails at a line only: at an action outside functions, or at a line of a function, from its header to
the end of its `Collector.Records`; and for no violation that the first pass would have found. -/
theorem refused_line (hc : (Collector.run source).result = .ok c) {stop : Stop Checker}
    (hs : (Checker.run source c.functions c.scopes).result = .error stop) :
    ∃ s l rest state, Checker.Reaches source c s l rest ∧
      (s.step c.functions l).result = .error ⟨stop.rejection, state⟩ ∧
      stop.rejection.line = some l.number ∧
      (s.blocks = [] ∧ (∃ statement, l.Reads statement ∧ statement.isAction = true) ∧
          stop.rejection.violation = .invalidActionInGlobalScope ∨
        ∃ first h body after, Collector.Records source first h body after ∧ l ∈ first :: body) ∧
      stop.rejection.violation ≠ .invalidScopeClosing ∧
      stop.rejection.violation ≠ .functionExists ∧
      (s.blocks = [] → stop.rejection.violation ≠ .invalidSyntax ∧ ∀ as, ¬l.Reads (.assignment as)) := by
  obtain ⟨s, l, rest, state, hreaches, hl, -⟩ := exists_refused hc hs
  obtain ⟨v, hrejection, hwhy⟩ := violation_of_refused hc hreaches (Checker.stop_of_step hl).refuses
  dsimp only at hrejection
  refine ⟨s, l, rest, state, hreaches, hl, ?_⟩
  rw [hrejection]
  refine ⟨rfl, ?_, ?_, ?_, ?_⟩
  · obtain ⟨houtside, ⟨⟨h, hheader⟩, -⟩ | ⟨haction, hv⟩⟩ | ⟨hinside, -⟩ := hwhy
    · obtain ⟨-, body, after, -, hrecords⟩ := exists_records hc hreaches houtside hheader
      exact .inr ⟨l, h, body, after, hrecords, List.mem_cons_self⟩
    · exact .inl ⟨houtside, haction, hv⟩
    · obtain ⟨first, h, body, after, hrecords, hmem⟩ := exists_records_of_inside hc hreaches hinside
      exact .inr ⟨first, h, body, after, hrecords, List.mem_cons_of_mem _ hmem⟩
  · rintro (rfl : v = _)
    simp [Violation.ofRules] at hwhy
  · rintro (rfl : v = _)
    simp [Violation.ofRules] at hwhy
  · intro houtside
    obtain ⟨-, hwhy⟩ | ⟨hinside, -⟩ := hwhy
    · refine ⟨?_, fun as has => ?_⟩
      · rintro (rfl : v = _)
        simp [Violation.ofRules] at hwhy
      · obtain ⟨⟨h, hheader⟩, -⟩ | ⟨⟨statement, hst, haction⟩, -⟩ := hwhy
        · cases has.unique hheader
        · cases has.unique hst
          cases haction
    · exact absurd houtside hinside

/-- A function that gives a value to a variable that is declared nowhere. -/
def unknownVariable : Source :=
  ⟨"unknown", "void f() \x7b\n  n = 1;\n  return;\n\x7d\n"⟩

theorem refused_line_unknown :
    ∃ c stop, (Collector.run unknownVariable).result = .ok c ∧
      (Checker.run unknownVariable c.functions c.scopes).result = .error stop ∧
      stop.rejection = .atLine 2 .variableNotFound ∧
      ∃ first h body after l, Collector.Records unknownVariable first h body after ∧ l ∈ first :: body ∧
        l.number = 2 := by
  have hrun : ((Collector.run unknownVariable).result.toOption.any fun c =>
      match (Checker.run unknownVariable c.functions c.scopes).result with
      | .ok _ => false
      | .error stop => stop.rejection = .atLine 2 .variableNotFound) = true := by decide +kernel
  cases hc : (Collector.run unknownVariable).result with
  | error stop => rw [hc] at hrun; cases hrun
  | ok c =>
    rw [hc] at hrun
    cases hs : (Checker.run unknownVariable c.functions c.scopes).result with
    | ok s => simp [Except.toOption, hs] at hrun
    | error stop =>
      have hrejection : stop.rejection = .atLine 2 .variableNotFound := by simpa [Except.toOption, hs] using hrun
      obtain ⟨s, l, rest, state, -, -, hline, hwhere, -⟩ := refused_line hc hs
      rw [hrejection] at hline hwhere
      obtain ⟨-, -, hviolation⟩ | ⟨first, h, body, after, hrecords, hmem⟩ := hwhere
      · cases hviolation
      · exact ⟨c, stop, rfl, hs, hrejection, first, h, body, after, l, hrecords, hmem, (Option.some.inj hline).symm⟩

end LineCheck
