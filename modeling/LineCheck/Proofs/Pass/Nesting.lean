import LineCheck.Proofs.Pass.Rejection

/-!
# LineCheck.Proofs.Pass.Nesting — blocks, their number, and their tables

The first pass counts no block and opens no table, not even while a line is dealt with or where it fails
(`Collector.flat_of_point`).  The second pass counts the blocks that the lines so far have opened and not closed, and
has one table more open than blocks (`Checker.InStep`).  However a pass ends, it leaves no table open
(`Collector.stack_endState`, `Checker.stack_endState`).  `nesting_in_step` puts this together for a program, and says
when its blocks are not balanced.
-/

namespace LineCheck

open Traced Text

/-- The state in which a pass ends, whether it has come to the end of the program or not. -/
def Traced.endState {σ : Type} (x : Traced (Stop σ) σ) : σ :=
  match x.result with
  | .ok s => s
  | .error stop => stop.state

/-- The braces that the lines open less those that they close. -/
def openBraces : List NumberedLine → Int
  | [] => 0
  | l :: ls => netBraces l.text + openBraces ls

/-! ### The first pass -/

namespace Collector

variable {source : Source} {c : Collector} {l : NumberedLine} {depth : Nat} {scopes : Scopes}

/-- The number of blocks and the variables at a point of the first pass over a program. -/
inductive Point (source : Source) : Nat → Scopes → Prop where
  /-- Between two lines, or before the first or behind the last one. -/
  | between {before rest : List NumberedLine} {c : Collector} (split : source.lines = before ++ rest)
      (run : Leads step {} before c) : Point source c.depth c.scopes
  /-- While a line is dealt with. -/
  | within {c : Collector} {l : NumberedLine} {rest : List NumberedLine} {scopes : Scopes}
      (reaches : Traced.Reaches step {} source.lines c l rest) (within : c.Within l scopes) :
      Point source c.depth scopes
  /-- When the pass has failed. -/
  | failed {stop : Stop Collector} (run : (run source).result = .error stop) :
      Point source stop.state.depth stop.state.scopes

/-- The items of a line open no table. -/
theorem Flat.stack_of_within (h : c.Flat) (hwithin : c.Within l scopes) : scopes.stack = [] := by
  cases hwithin with
  | start => exact h.stack
  | assigned _ _ run => exact h.of_keeps (of_performAll run).2
  | declared _ _ _ run => exact h.of_keeps (Declaration.of_performOne run).2

theorem flat_of_point (h : Point source depth scopes) : depth = 0 ∧ scopes.stack = [] := by
  have hwithin : ∀ {c l rest scopes}, Traced.Reaches step {} source.lines c l rest → c.Within l scopes →
      c.depth = 0 ∧ scopes.stack = [] := by
    rintro c l rest scopes ⟨before, -, hlead⟩ hwithin
    have hflat := (flat_start.leads hlead).1
    exact ⟨hflat.depth, hflat.stack_of_within hwithin⟩
  cases h with
  | between _ hlead =>
    have hflat := (flat_start.leads hlead).1
    exact ⟨hflat.depth, hflat.stack⟩
  | within hreaches h => exact hwithin hreaches h
  | failed hrun =>
    rcases result_run_eq_error_iff.mp hrun with ⟨c, l, rest, hreaches, hl⟩ | ⟨c, hlead, hend⟩
    · obtain ⟨-, -, hdepth, h⟩ := stop_of_step hl
      rw [hdepth]
      exact hwithin hreaches h
    · obtain ⟨-, rfl⟩ := result_finish_eq_error hend
      have hflat := (flat_start.leads hlead).1
      exact ⟨hflat.depth, hflat.stack⟩

theorem stack_endState : (run source).endState.scopes.stack = [] := by
  unfold endState
  split
  · next c hc => exact (flat_of_run hc).stack
  · next stop hstop => exact (flat_of_point (.failed hstop)).2

end Collector

/-! ### The second pass -/

namespace Checker

variable {functions : Functions} {source : Source} {s s' : Checker} {ls : List NumberedLine}

/-- The second pass has read the lines `before` and comes to the next one: the number of blocks, the open tables and the
braces of these lines agree, and a block that is open can be closed. -/
structure InStep (before : List NumberedLine) (s : Checker) : Prop where
  tables : s.depth = 0 ∧ s.scopes.stack = [] ∨ 1 ≤ s.depth ∧ s.scopes.stack.length = s.depth + 1
  blocks : s.depth = s.blocks.length
  braces : (s.depth : Int) = openBraces before
  closes : s.InBlock → ∀ number, ∃ s', (closeBrace { s with line := number }).result = .ok s'

/-- Lines change the number of open blocks by the balance of their braces. -/
theorem Lockstep.length_blocks_of_leads (h : s.Lockstep) (hs : Leads (Checker.step functions) s ls s') :
    (s'.blocks.length : Int) = s.blocks.length + openBraces ls := by
  induction ls generalizing s with
  | nil => rw [leads_nil.mp hs, openBraces, Int.add_zero]
  | cons l ls ih =>
    obtain ⟨s₁, h₁, h₂⟩ := leads_cons.mp hs
    rw [ih (h.step h₁) h₂, h.length_blocks h₁, openBraces, Int.add_assoc]

theorem Lockstep.tables (h : s.Lockstep) :
    s.depth = 0 ∧ s.scopes.stack = [] ∨ 1 ≤ s.depth ∧ s.scopes.stack.length = s.depth + 1 := by
  rw [h.depth]
  refine h.stack.imp ?_ ?_
  · rintro ⟨hblocks, hstack⟩
    exact ⟨congrArg List.length hblocks, hstack⟩
  · rintro ⟨hnested, hlength⟩
    exact ⟨List.length_pos_iff.mpr hnested.ne_nil, hlength⟩

/-- Where a block is open, a closing brace has one to close. -/
theorem Lockstep.exists_closeBrace (h : s.Lockstep) (hinside : s.InBlock) (number : Nat) :
    ∃ s', (closeBrace { s with line := number }).result = .ok s' := by
  have hpos : 0 < s.depth := by
    rw [h.depth]
    exact List.length_pos_iff.mpr hinside
  exact ⟨_, result_closeBrace_eq_ok_iff.mpr ⟨s.depth - 1, (Nat.sub_add_cancel hpos).symm, rfl⟩⟩

theorem inStep_of_leads {scopes : Scopes} (hscopes : scopes.stack = [])
    (hs : Leads (step functions) { scopes } ls s) : s.InStep ls := by
  have hlock := (lockstep_start hscopes).leads hs
  have hbraces := (lockstep_start hscopes).length_blocks_of_leads hs
  refine ⟨hlock.tables, hlock.depth, ?_, hlock.exists_closeBrace⟩
  rw [hlock.depth, hbraces]
  exact Int.zero_add _

theorem stack_endState {scopes : Scopes} (hscopes : scopes.stack = []) :
    (run source functions scopes).endState.scopes.stack = [] := by
  have hlead : ∀ {ls s}, Leads (step functions) { scopes } ls s → s.Lockstep :=
    fun hs => (lockstep_start hscopes).leads hs
  unfold endState
  split
  · next s hs =>
    obtain ⟨hrun, hblocks, -⟩ := result_run_eq_ok_iff.mp hs
    exact (hlead hrun).stack_eq_nil hblocks
  · next stop hstop =>
    obtain ⟨state, hunwind, ⟨s, l, rest, ⟨before, -, hs⟩, hl⟩ | ⟨s, hs, hend⟩⟩ := refused_of_run hstop
    · rw [hunwind]
      exact ((hlead hs).leavable_of_refused hl).stack_unwind
    · obtain rfl : state = s := congrArg Stop.state (result_finish_eq_error hend).2
      rw [hunwind]
      exact (hlead hs).leavable.stack_unwind

end Checker

/-! ### Both passes over a program -/

section Program

variable (source : Source)

/-- A program is refused because its blocks are not balanced exactly if it ends inside a block or has a closing brace
outside blocks. -/
theorem unbalanced_iff :
    (∃ r, source.verdict = .error r ∧ r.violation = .invalidScopeClosing) ↔
      (∃ c, Leads Collector.step {} source.lines c ∧ c.InBlock) ∨
        ∃ c l rest, Traced.Reaches Collector.step {} source.lines c l rest ∧ ¬c.InBlock ∧ l.Reads .closeBrace := by
  constructor
  · rintro ⟨r, hr, hviolation⟩
    cases Source.refusedFor_of_verdict hr with
    | line _ hrule => exact absurd hviolation hrule
    | unclosed hlead hinside => exact .inl ⟨_, hlead, hinside⟩
    | unopened hreaches houtside hreads => exact .inr ⟨_, _, _, hreaches, houtside, hreads⟩
  · rintro (⟨c, hlead, hinside⟩ | ⟨c, l, rest, hreaches, houtside, hreads⟩)
    · exact ⟨_, verdict_of_unclosed hlead hinside, rfl⟩
    · exact ⟨_, verdict_of_unopened hreaches houtside hreads, rfl⟩

/-- The first pass counts no block and opens no table, the second is `Checker.InStep` with the braces before each line,
and both leave no table open at their `endState`.  So `invalidScopeClosing` is found by the first pass only: for lines
that end inside a block, or a closing brace outside of one. -/
theorem nesting_in_step :
    (∀ depth scopes, Collector.Point source depth scopes → depth = 0 ∧ scopes.stack = []) ∧
    (Collector.run source).endState.scopes.stack = [] ∧
    (∀ c, Leads Collector.step {} source.lines c → ¬c.InBlock → c.depth = 0) ∧
    (∀ c, (Collector.run source).result = .ok c →
      (∀ before rest s, source.lines = before ++ rest →
        Leads (Checker.step c.functions) { scopes := c.scopes } before s → s.InStep before) ∧
      (Checker.run source c.functions c.scopes).endState.scopes.stack = [] ∧
      (∀ s, Leads (Checker.step c.functions) { scopes := c.scopes } source.lines s → ¬s.InBlock → s.depth = 0) ∧
      ∀ stop, (Checker.run source c.functions c.scopes).result = .error stop →
        stop.rejection.violation ≠ .invalidScopeClosing) ∧
    ((∃ r, source.verdict = .error r ∧ r.violation = .invalidScopeClosing) ↔
      (∃ c, Leads Collector.step {} source.lines c ∧ c.InBlock) ∨
        ∃ c l rest, Traced.Reaches Collector.step {} source.lines c l rest ∧ ¬c.InBlock ∧
          l.Reads .closeBrace) := by
  refine ⟨fun _ _ => Collector.flat_of_point, Collector.stack_endState, ?_, ?_, unbalanced_iff source⟩
  · intro c hlead _
    exact (Collector.flat_start.leads hlead).1.depth
  · intro c hc
    have hstack := (Collector.flat_of_run hc).stack
    refine ⟨fun _ _ _ _ hs => Checker.inStep_of_leads hstack hs, Checker.stack_endState hstack, ?_, ?_⟩
    · intro s hs houtside
      rw [(Checker.inStep_of_leads hstack hs).blocks, not_not.mp houtside, List.length_nil]
    · intro stop hstop
      obtain ⟨l, -, v, hv, hrejection⟩ := Checker.exists_line_of_run hc hstop
      rw [hrejection]
      exact hv

/-- An unknown variable is given a value two blocks deep. -/
def unknownInCondition : Source :=
  ⟨"deep", "void f() \x7b\n  if (true) \x7b\n    x = 1;\n  \x7d\n  return;\n\x7d\n"⟩

/-- Two blocks and three tables are open before the line that is refused, and none is when the pass has failed. -/
theorem nesting_in_step_refused :
    ∃ c s stop, (Collector.run unknownInCondition).result = .ok c ∧
      Leads (Checker.step c.functions) { scopes := c.scopes } (unknownInCondition.lines.take 2) s ∧
      s.depth = 2 ∧ s.scopes.stack.length = 3 ∧
      (Checker.run unknownInCondition c.functions c.scopes).result = .error stop ∧
      stop.rejection = .atLine 3 .variableNotFound ∧ stop.state.scopes.stack = [] := by
  have hrun : ((Collector.run unknownInCondition).result.toOption.any fun c =>
      ((unknownInCondition.lines.take 2).foldlM (Checker.step c.functions) { scopes := c.scopes }).result.toOption.any
          (fun s => s.depth = 2) &&
        match (Checker.run unknownInCondition c.functions c.scopes).result with
        | .ok _ => false
        | .error stop => stop.rejection = .atLine 3 .variableNotFound) = true := by decide +kernel
  obtain ⟨-, -, -, hcheck, -⟩ := nesting_in_step unknownInCondition
  cases hc : (Collector.run unknownInCondition).result with
  | error stop => rw [hc] at hrun; cases hrun
  | ok c =>
    simp only [hc, Except.toOption, Option.any_some, Bool.and_eq_true] at hrun
    obtain ⟨hdeep, hrefused⟩ := hrun
    obtain ⟨hbetween, hend, -, -⟩ := hcheck c hc
    cases hs : ((unknownInCondition.lines.take 2).foldlM (Checker.step c.functions) { scopes := c.scopes }).result with
    | error stop => simp [hs] at hdeep
    | ok s =>
      cases hstop : (Checker.run unknownInCondition c.functions c.scopes).result with
      | ok _ => simp [hstop] at hrefused
      | error stop =>
        have hdepth : s.depth = 2 := by simpa [hs] using hdeep
        have htables := (hbetween _ _ s (List.take_append_drop 2 _).symm hs).tables
        refine ⟨c, s, stop, rfl, hs, hdepth, by omega, hstop, by simpa [hstop] using hrefused, ?_⟩
        rwa [endState, hstop] at hend

end Program

end LineCheck
