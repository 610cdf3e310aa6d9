import LineCheck.Proofs.Pass.Blocks

/-!
# LineCheck.Proofs.Pass.Refusal — how a pass ends early

A pass that fails does so at a line that its step refuses, or at the end of the program, where a block is open still
(`Collector.result_run_eq_error_iff`, `Checker.refused_of_run`).  For each pass `Refuses` tells why a line is refused,
and `Within` where it leaves the variables; both are settled at once (`Collector.stop_of_step`,
`Checker.stop_of_step`).

Wherever the second pass stops, its open blocks are such that leaving them leaves all tables but the globals
(`Checker.Leavable`).
-/

namespace LineCheck

/-! ### Where a line that is refused leaves the variables -/

namespace Traced

/-- Where each step that fails leaves the state as it was, a fold that fails leaves it as a part of its run has made
it. -/
theorem exists_leads_of_stopped {σ α : Type} {step : σ → α → Traced (Stop σ) σ}
    (hstep : ∀ s a stop, (step s a).result = .error stop → stop.state = s) {s : σ} {as : List α} {stop : Stop σ}
    (h : (as.foldlM step s).result = .error stop) : ∃ done more, as = done ++ more ∧ Leads step s done stop.state := by
  obtain ⟨done, a, more, s', has, hlead, herr⟩ := exists_leads_of_result_eq_error h
  exact ⟨done, a :: more, has, (hstep s' a stop herr) ▸ hlead⟩

end Traced

open Traced

theorem Declaration.state_of_performOne {d : Declaration} {number : Nat} {s : Scopes} {v : Declarator}
    {stop : Stop Scopes} (h : (d.performOne number s v).result = .error stop) : stop.state = s := by
  rcases result_bind_eq_error h with hdeclare | ⟨s', -, hemit⟩
  · obtain ⟨e, hrule, -⟩ := result_proceed_eq_error hdeclare
    exact (Declarator.error_of_declareIn hrule).2
  · cases hemit

theorem state_of_performOne {number : Nat} {s : Scopes} {a : Assignment} {stop : Stop Scopes}
    (h : (performOne number s a).result = .error stop) : stop.state = s := by
  obtain ⟨e, hrule, -⟩ := result_proceed_eq_error h
  exact (Assignment.error_of_applyTo hrule).2

theorem state_of_declareParam {number : Nat} {s : Scopes} {p : Param} {stop : Stop Scopes}
    (h : (declareParam number s p).result = .error stop) : stop.state = s := by
  obtain ⟨e, hrule, -⟩ := result_proceed_eq_error h
  exact (Param.error_of_declareIn hrule).2

theorem Declaration.exists_leads_of_perform {d : Declaration} {number : Nat} {s : Scopes} {stop : Stop Scopes}
    (h : (d.perform number s).result = .error stop) :
    ∃ done more, d.declarators = done ++ more ∧ Leads (d.performOne number) s done stop.state :=
  exists_leads_of_stopped (fun _ _ _ hone => state_of_performOne hone) h

theorem exists_leads_of_performAll {as : List Assignment} {number : Nat} {s : Scopes} {stop : Stop Scopes}
    (h : (performAll as number s).result = .error stop) :
    ∃ done more, as = done ++ more ∧ Leads (performOne number) s done stop.state :=
  exists_leads_of_stopped (fun _ _ _ hone => state_of_performOne hone) h

theorem Header.exists_leads_of_declareParams {hd : Header} {number : Nat} {s : Scopes} {stop : Stop Scopes}
    (h : (hd.declareParams number s).result = .error stop) :
    ∃ done more, hd.params = done ++ more ∧ Leads (declareParam number) s done stop.state :=
  exists_leads_of_stopped (fun _ _ _ hone => state_of_declareParam hone) h

theorem NumberedLine.not_reads_of_error {l : NumberedLine} {e : ParseError} (h : Line.ofText l.number l.text = .error e)
    (statement : Statement) : ¬l.Reads statement := by
  rintro ⟨line, hline, -⟩
  rw [hline] at h
  cases h

theorem Functions.error_of_declare {f : Functions} {s : Signature} {e : Violation} (h : f.declare s = .error e) :
    e = .functionExists := by
  unfold declare at h
  split at h
  · exact (Except.error.inj h).symm
  · cases h

/-! ### The first pass -/

namespace Collector

variable {c : Collector} {l : NumberedLine} {stop : Stop Collector} {statement : Statement}

/-- Why a line ends the first pass. -/
inductive Refuses (c : Collector) (l : NumberedLine) : Rejection → Prop where
  | unread (none : ∀ statement, ¬l.Reads statement) : Refuses c l (.atLine l.number .invalidSyntax)
  | rule {v : Violation} (rule : v ∈ Violation.ofRules) : Refuses c l (.atLine l.number v)
  | redeclared : Refuses c l (.atLine l.number .functionExists)
  /-- A closing brace with nothing to close. -/
  | stray (reads : l.Reads .closeBrace) (closed : c.depth = 0) : Refuses c l .unbalanced

/-- A point inside a line outside blocks: between two of the items that it declares or assigns to. -/
inductive Within (c : Collector) (l : NumberedLine) : Scopes → Prop where
  /-- Nothing of the line is done. -/
  | start : Within c l c.scopes
  | assigned {done more : List Assignment} {scopes : Scopes} (outside : c.skip = none)
      (reads : l.Reads (.assignment (done ++ more))) (run : Leads (performOne l.number) c.scopes done scopes) :
      Within c l scopes
  | declared {d : Declaration} {done more : List Declarator} {scopes : Scopes} (outside : c.skip = none)
      (reads : l.Reads (.declaration d)) (items : d.declarators = done ++ more)
      (run : Leads (d.performOne l.number) c.scopes done scopes) : Within c l scopes

/-- A line that ends the first pass: it is read outside blocks and is refused for one of the reasons, no block is
counted for it, and the variables are left as they were at a point inside it. -/
structure StopsAt (c : Collector) (l : NumberedLine) (stop : Stop Collector) : Prop where
  outside : c.skip = none
  refuses : c.Refuses l stop.rejection
  depth : stop.state.depth = c.depth
  within : c.Within l stop.state.scopes

theorem stop_of_perform (hskip : c.skip = none) (hl : l.Reads statement)
    (h : (perform { c with line := l.number } statement).result = .error stop) : c.StopsAt l stop := by
  cases statement with
  | blank => cases h
  | comment => cases h
  | declaration d =>
    obtain ⟨stop', herr, rfl⟩ := result_withScopes_eq_error h
    obtain ⟨v, hv, hrejection⟩ := Declaration.breaksRule herr
    obtain ⟨done, more, hitems, hlead⟩ := Declaration.exists_leads_of_perform herr
    exact ⟨hskip, hrejection ▸ .rule hv, rfl, .declared hskip hl hitems hlead⟩
  | assignment as =>
    obtain ⟨stop', herr, rfl⟩ := result_withScopes_eq_error h
    obtain ⟨v, hv, hrejection⟩ := breaksRule_performAll herr
    obtain ⟨done, more, rfl, hlead⟩ := exists_leads_of_performAll herr
    exact ⟨hskip, hrejection ▸ .rule hv, rfl, .assigned hskip hl hlead⟩
  | function hd =>
    rcases result_bind_eq_error h with hemit | ⟨-, -, h⟩
    · cases hemit
    · rcases result_bind_eq_error h with hdeclare | ⟨functions, -, hemit⟩
      · obtain ⟨v, hv, rfl⟩ := result_require_eq_error hdeclare
        rw [Functions.error_of_declare hv]
        exact ⟨hskip, .redeclared, rfl, .start⟩
      · cases hemit
  | call call => cases h
  | guard w g => cases h
  | «return» => cases h
  | closeBrace =>
    simp only [perform, closeBlock] at h
    split at h
    · next hdepth => cases h; exact ⟨hskip, .stray hl hdepth, rfl, .start⟩
    · cases h

/-- Where a step of the first pass fails, it is so. -/
theorem stop_of_step (h : (c.step l).result = .error stop) : c.StopsAt l stop := by
  cases hskip : c.skip with
  | some k =>
    rw [result_step_of_skip hskip, passOver] at h
    dsimp only at h
    split at h <;> cases h
  | none =>
    rcases l.reads_or with ⟨statement, hl⟩ | ⟨e, he⟩
    · rw [result_step_of_reads hskip hl] at h
      exact stop_of_perform hskip hl h
    · simp only [step, hskip] at h
      rw [result_readLine_bind_of_error he] at h
      cases h
      exact ⟨hskip, .unread (NumberedLine.not_reads_of_error he), rfl, .start⟩

/-- The end of the program is refused inside a block. -/
theorem result_finish_eq_error {source : String} (h : (c.finish source).result = .error stop) :
    (c.skip ≠ none ∨ c.depth ≠ 0) ∧ stop = ⟨.unbalanced, c⟩ := by
  unfold finish at h
  split at h
  · next hopen => cases h; exact ⟨by simpa [Option.isSome_iff_ne_none] using hopen, rfl⟩
  · cases h

/-- The first pass fails at a line or at the end of the program. -/
theorem result_run_eq_error_iff {source : Source} :
    (run source).result = .error stop ↔
      (∃ c l rest, Traced.Reaches step {} source.lines c l rest ∧ (c.step l).result = .error stop) ∨
        ∃ c, Leads step {} source.lines c ∧ (c.finish source.name).result = .error stop := by
  rw [run, result_emit_bind]
  exact result_foldlM_bind_eq_error_iff

end Collector

/-! ### The second pass -/

namespace Checker

variable {functions : Functions} {s : Checker} {l : NumberedLine} {stop : Stop Checker} {b : OpenBlock}
  {outer : List OpenBlock} {statement : Statement}

/-- Why a line ends the second pass. -/
inductive Refuses (s : Checker) (l : NumberedLine) : Rejection → Prop where
  | unread (none : ∀ statement, ¬l.Reads statement) : Refuses s l (.atLine l.number .invalidSyntax)
  | replay {as : List Assignment} {v : Violation} (outside : s.blocks = []) (reads : l.Reads (.assignment as))
      (fails : ∀ scopes, (performAll as l.number s.scopes).result ≠ .ok scopes) : Refuses s l (.atLine l.number v)
  | params {h : Header} {v : Violation} (outside : s.blocks = []) (reads : l.Reads (.function h))
      (rule : v ∈ Violation.ofRules) : Refuses s l (.atLine l.number v)
  | action {statement : Statement} (outside : s.blocks = []) (reads : l.Reads statement)
      (action : statement.isAction = true) : Refuses s l (.atLine l.number .invalidActionInGlobalScope)
  /-- A closing brace with nothing to close. -/
  | stray (reads : l.Reads .closeBrace) (closed : s.depth = 0) : Refuses s l .unbalanced
  /-- A line of a function that breaks a rule. -/
  | rule {v : Violation} (inside : s.blocks ≠ []) (rule : v ∈ Violation.ofRules) : Refuses s l (.atLine l.number v)
  | nested (inside : s.blocks ≠ []) : Refuses s l (.atLine l.number .invalidScopeFunctionDeclaration)
  | unreturned (inside : s.blocks ≠ []) : Refuses s l (.atLine l.number .lastLineNotReturn)

/-- A point inside a line: between two of the items that it declares or assigns to, or two parameters. -/
inductive Within (s : Checker) (l : NumberedLine) : Scopes → Prop where
  /-- Nothing of the line is done. -/
  | start : Within s l s.scopes
  | assigned {done more : List Assignment} {scopes : Scopes} (reads : l.Reads (.assignment (done ++ more)))
      (run : Leads (performOne l.number) s.scopes done scopes) : Within s l scopes
  | declared {d : Declaration} {done more : List Declarator} {scopes : Scopes} (inside : s.blocks ≠ [])
      (reads : l.Reads (.declaration d)) (items : d.declarators = done ++ more)
      (run : Leads (d.performOne l.number) s.scopes done scopes) : Within s l scopes
  | entered {h : Header} {done more : List Param} {scopes : Scopes} (outside : s.blocks = [])
      (reads : l.Reads (.function h)) (items : h.params = done ++ more)
      (run : Leads (declareParam l.number) s.scopes.openFunction done scopes) : Within s l scopes

/-- The open blocks and the variables that a line which is refused leaves. -/
inductive Leaves (s : Checker) : List OpenBlock → Scopes → Prop where
  /-- The blocks are as they were, and so is the number of open tables. -/
  | same {scopes : Scopes} (height : scopes.stack.length = s.scopes.stack.length) : Leaves s s.blocks scopes
  /-- The block of a function is open, but not all of its parameters are declared. -/
  | entered {scopes : Scopes} (outside : s.blocks = []) : Leaves s [⟨.function, false⟩] scopes
  /-- The innermost block remembers the line as its last one. -/
  | passed {b : OpenBlock} {outer : List OpenBlock} {scopes : Scopes} (inside : s.blocks = b :: outer)
      (statement : Statement) : Leaves s (b.after statement :: outer) scopes

/-- A line that ends the second pass: it is refused for one of the reasons, and the variables are left as they were at a
point inside it, with these blocks open. -/
structure StopsAt (s : Checker) (l : NumberedLine) (stop : Stop Checker) : Prop where
  refuses : s.Refuses l stop.rejection
  within : s.Within l stop.state.scopes
  leaves : s.Leaves stop.state.blocks stop.state.scopes

theorem result_closeBrace_eq_error (h : s.closeBrace.result = .error stop) :
    s.depth = 0 ∧ stop = ⟨.unbalanced, s⟩ := by
  unfold closeBrace at h
  split at h
  · next hdepth => cases h; exact ⟨hdepth, rfl⟩
  · cases h

theorem stop_of_performOutside (houtside : s.blocks = []) (hl : l.Reads statement)
    (h : (performOutside { s with line := l.number } statement).result = .error stop) : s.StopsAt l stop := by
  have hsame : s.Leaves s.blocks s.scopes := .same rfl
  cases statement with
  | blank => cases h
  | comment => cases h
  | declaration d => cases h
  | assignment as =>
    obtain ⟨stop', herr, rfl⟩ := result_withScopes_eq_error h
    obtain ⟨v, -, hrejection⟩ := breaksRule_performAll herr
    obtain ⟨done, more, rfl, hlead⟩ := exists_leads_of_performAll herr
    have hkeeps : s.scopes.Keeps stop'.state := (of_performAll hlead).2
    refine ⟨?_, .assigned hl hlead, .same hkeeps.height⟩
    refine hrejection ▸ .replay houtside hl fun scopes hok => ?_
    rw [hok] at herr
    cases herr
  | function hd =>
    rcases result_bind_eq_error h with hemit | ⟨-, -, h⟩
    · cases hemit
    · rcases result_bind_eq_error h with hparams | ⟨s₁, -, hpure⟩
      · obtain ⟨stop', herr, rfl⟩ := result_withScopes_eq_error hparams
        obtain ⟨v, hv, hrejection⟩ := Header.breaksRule herr
        obtain ⟨done, more, hitems, hlead⟩ := Header.exists_leads_of_declareParams herr
        refine ⟨hrejection ▸ .params houtside hl hv, .entered houtside hl hitems hlead, ?_⟩
        show s.Leaves (⟨.function, false⟩ :: s.blocks) _
        rw [houtside]
        exact .entered houtside
      · cases hpure
  | call c => cases h; exact ⟨.action houtside hl rfl, .start, hsame⟩
  | guard w c => cases h; exact ⟨.action houtside hl rfl, .start, hsame⟩
  | «return» => cases h; exact ⟨.action houtside hl rfl, .start, hsame⟩
  | closeBrace =>
    obtain ⟨hclosed, rfl⟩ := result_closeBrace_eq_error h
    exact ⟨.stray hl hclosed, .start, hsame⟩

theorem stop_of_performInside (hinside : s.blocks = b :: outer) (hl : l.Reads statement)
    (h : (performInside functions { s with line := l.number } b outer statement).result = .error stop) :
    s.StopsAt l stop := by
  have hblocks : s.blocks ≠ [] := by simp [hinside]
  have hpassed : ∀ scopes, s.Leaves (b.after statement :: outer) scopes := fun _ => .passed hinside statement
  cases statement with
  | blank => cases h
  | comment => cases h
  | declaration d =>
    obtain ⟨stop', herr, rfl⟩ := result_withScopes_eq_error h
    obtain ⟨v, hv, hrejection⟩ := Declaration.breaksRule herr
    obtain ⟨done, more, hitems, hlead⟩ := Declaration.exists_leads_of_perform herr
    exact ⟨hrejection ▸ .rule hblocks hv, .declared hblocks hl hitems hlead, hpassed _⟩
  | assignment as =>
    obtain ⟨stop', herr, rfl⟩ := result_withScopes_eq_error h
    obtain ⟨v, hv, hrejection⟩ := breaksRule_performAll herr
    obtain ⟨done, more, rfl, hlead⟩ := exists_leads_of_performAll herr
    exact ⟨hrejection ▸ .rule hblocks hv, .assigned hl hlead, hpassed _⟩
  | function hd => cases h; exact ⟨.nested hblocks, .start, hpassed _⟩
  | call c =>
    rcases result_bind_eq_error h with hcheck | ⟨-, -, hpure⟩
    · obtain ⟨v, hv, rfl⟩ := result_require_eq_error hcheck
      exact ⟨.rule hblocks (Call.error_of_check hv), .start, hpassed _⟩
    · cases hpure
  | guard w c =>
    rcases result_bind_eq_error h with hcheck | ⟨-, -, hpure⟩
    · obtain ⟨v, hv, rfl⟩ := result_require_eq_error hcheck
      exact ⟨.rule hblocks (Condition.error_of_check hv), .start, hpassed _⟩
    · cases hpure
  | «return» => cases h
  | closeBrace =>
    rcases result_bind_eq_error h with hclose | ⟨s₁, hclose, hleave⟩
    · obtain ⟨hclosed, rfl⟩ := result_closeBrace_eq_error hclose
      exact ⟨.stray hl hclosed, .start, .same rfl⟩
    · obtain ⟨depth, -, rfl⟩ := result_closeBrace_eq_ok_iff.mp hclose
      rw [leaveBlock] at hleave
      split at hleave
      · cases hleave; exact ⟨.unreturned hblocks, .start, .same rfl⟩
      · cases hleave

/-- Where a step of the second pass fails, it is so. -/
theorem stop_of_step (h : (s.step functions l).result = .error stop) : s.StopsAt l stop := by
  rcases l.reads_or with ⟨statement, hl⟩ | ⟨e, he⟩
  · cases hblocks : s.blocks with
    | nil => exact stop_of_performOutside hblocks hl (result_step_of_outside hblocks hl ▸ h)
    | cons b outer => exact stop_of_performInside hblocks hl (result_step_of_inside hblocks hl ▸ h)
  · rw [step, result_readLine_bind_of_error he] at h
    cases h
    exact ⟨.unread (NumberedLine.not_reads_of_error he), .start, .same rfl⟩

/-! Leaving the blocks that are open where a pass stops. -/

/-- Leaving the open blocks closes all open tables: none is open outside blocks, and the outermost block is that of a
function. -/
def Leavable (s : Checker) : Prop :=
  s.blocks = [] ∧ s.scopes.stack = [] ∨ Nested s.blocks

theorem Lockstep.leavable (h : s.Lockstep) : s.Leavable :=
  h.stack.imp_right And.left

theorem stack_foldl_leave {blocks : List OpenBlock} (h : Nested blocks) (scopes : Scopes) :
    (blocks.foldl (fun scopes b => b.leave scopes) scopes).stack = [] := by
  induction h generalizing scopes with
  | function _ => rfl
  | guard _ _ ih => exact ih _

theorem Leavable.stack_unwind (h : s.Leavable) : s.unwind.scopes.stack = [] := by
  rcases h with ⟨hblocks, hstack⟩ | hnested
  · simp [unwind, hblocks, hstack]
  · exact stack_foldl_leave hnested s.scopes

/-- A line that is refused leaves open blocks that can be left. -/
theorem Lockstep.leavable_of_refused (h : s.Lockstep) (hs : (s.step functions l).result = .error stop) :
    stop.state.Leavable := by
  have hleaves := (stop_of_step hs).leaves
  unfold Leavable
  generalize stop.state.blocks = blocks, stop.state.scopes = scopes at hleaves
  cases hleaves with
  | same height =>
    refine h.stack.imp ?_ And.left
    rintro ⟨hblocks, hstack⟩
    exact ⟨hblocks, List.length_eq_zero_iff.mp (height.trans (congrArg List.length hstack))⟩
  | entered _ => exact .inr (.function false)
  | passed hinside statement =>
    have hnested := (h.nested (by simp [hinside])).1
    rw [hinside] at hnested
    exact .inr (hnested.after statement)

/-- The end of the program is refused inside a block. -/
theorem result_finish_eq_error {source : String} (h : (s.finish source).result = .error stop) :
    (s.blocks ≠ [] ∨ s.depth ≠ 0) ∧ stop = ⟨.unbalanced, s⟩ := by
  unfold finish at h
  split at h
  · next hopen => cases h; exact ⟨by simpa using hopen, rfl⟩
  · cases h

/-- The second pass fails at a line or at the end of the program, and leaves the blocks that are open then. -/
theorem refused_of_run {source : Source} {scopes : Scopes} (h : (run source functions scopes).result = .error stop) :
    ∃ state, stop.state = state.unwind ∧
      ((∃ s l rest, Traced.Reaches (step functions) { scopes } source.lines s l rest ∧
          (s.step functions l).result = .error ⟨stop.rejection, state⟩) ∨
        ∃ s, Leads (step functions) { scopes } source.lines s ∧
          (s.finish source.name).result = .error ⟨stop.rejection, state⟩) := by
  rw [run, result_mapError, result_emit_bind] at h
  cases hrun : (source.lines.foldlM (step functions) { scopes } >>= (·.finish source.name)).result with
  | ok s => rw [hrun] at h; cases h
  | error stop' =>
    rw [hrun] at h
    cases h
    exact ⟨stop'.state, rfl, result_foldlM_bind_eq_error_iff.mp hrun⟩

end Checker

end LineCheck
