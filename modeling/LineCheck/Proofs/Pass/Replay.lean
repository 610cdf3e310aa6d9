import LineCheck.Proofs.Pass.Localisation
import LineCheck.Proofs.Symbol.Writes

/-!
# LineCheck.Proofs.Pass.Replay — the globals during the second pass

The second pass makes the assignments outside functions once more, on the globals as the first pass has left them.
Their values go back to earlier ones for a while, but at every point of the pass (`Checker.Point`) the globals are
declared and assigned as they were, and at its end they are what they were, values included (`globals_of_replay`).

For the last part the assignments that a pass makes outside functions are taken as one list (`writesOutside`).  The
first pass leaves the globals settled for its list (`Collector.settled_of_leads`), the second one records the values of
its own (`Checker.globals_of_leads`), and these lists are the same.
-/

namespace LineCheck

open Traced

/-! ### What a line does to the globals outside functions -/

section Rules

variable {s s' : Scopes} {number : Nat}

theorem Scopes.globals_of_declare {v : Variable} (h : s.declare v = (.ok (), s')) (hs : s.stack = []) :
    s.globals.find? v.name = none ∧ s'.globals = (v.name, v) :: s.globals := by
  rw [declare_of_nil hs] at h
  obtain ⟨-, hdeclare⟩ | ⟨hfresh, hdeclare⟩ := s.declareGlobal_cases v
  · rw [hdeclare] at h
    cases h
  · rw [hdeclare] at h
    cases h
    exact ⟨hfresh, rfl⟩

theorem Assignment.globals_of_applyTo {a : Assignment} (h : a.applyTo s = (.ok (), s')) (hs : s.stack = []) :
    s.globals.find? a.name ≠ none ∧ s'.globals = s.globals.record a.name a.value.text := by
  obtain ⟨e, -, hrefused⟩ | ⟨v, hv, -, -, hrecorded⟩ := a.applyTo_cases s
  · rw [hrefused] at h
    cases h
  · rw [hrecorded] at h
    cases h
    rw [Scopes.resolve_of_stack_eq_nil s hs] at hv
    exact ⟨by simp [hv], by simp only [Scopes.record, hs]⟩

/-- Assignments outside functions are recorded for globals that are there. -/
theorem globals_of_performAll {as : List Assignment} (h : (performAll as number s).result = .ok s')
    (hs : s.stack = []) :
    (∀ a ∈ as, s.globals.find? a.name ≠ none) ∧ s'.globals = s.globals.recordAll as := by
  change Leads (performOne number) s as s' at h
  induction as generalizing s with
  | nil => exact ⟨fun _ ha => absurd ha List.not_mem_nil, by rw [leads_nil.mp h, Table.recordAll_nil]⟩
  | cons a as ih =>
    obtain ⟨s₁, h₁, h₂⟩ := leads_cons.mp h
    have happly := result_proceed_eq_ok_iff.mp h₁
    obtain ⟨hknown, hglobals⟩ := Assignment.globals_of_applyTo happly hs
    obtain ⟨-, -, -, -, -, hkeeps⟩ := Assignment.of_applyTo happly
    have hstack : s₁.stack = [] := List.length_eq_zero_iff.mp (hkeeps.height.trans (congrArg List.length hs))
    obtain ⟨hmore, hglobals'⟩ := ih hstack h₂
    rw [hglobals] at hmore hglobals'
    refine ⟨List.forall_mem_cons.mpr ⟨hknown, fun b hb => ?_⟩, hglobals'⟩
    exact (not_congr Table.find?_record_eq_none_iff).mp (hmore b hb)

/-- Globals that are declared have not been assigned to before. -/
theorem Declaration.settled_of_perform {d : Declaration} {as : List Assignment}
    (h : (d.perform number s).result = .ok s') (hs : s.stack = []) (hsettled : s.globals.Settled as) :
    s'.globals.Settled as := by
  have hstep : ∀ t v t', (t.stack = [] ∧ t.globals.Settled as) → (d.performOne number t v).result = .ok t' →
      t'.stack = [] ∧ t'.globals.Settled as := by
    rintro t v t' ⟨hstack, ht⟩ hv
    have hdeclare := result_performOne_eq_ok_iff.mp hv
    obtain ⟨-, -, -, hkeeps⟩ := Declarator.of_declareIn hdeclare
    refine ⟨List.length_eq_zero_iff.mp (hkeeps.height.trans (congrArg List.length hstack)), ?_⟩
    unfold Declarator.declareIn at hdeclare
    split at hdeclare
    · obtain ⟨hfresh, hglobals⟩ := Scopes.globals_of_declare hdeclare hstack
      rw [hglobals]
      exact ht.insert hfresh _
    · cases hdeclare
  have hlead : Leads (d.performOne number) s d.declarators s' := h
  exact (hlead.preserves hstep ⟨hs, hsettled⟩).2

end Rules

/-! ### The assignments of a pass outside functions -/

/-- The assignments that a line with this statement makes. -/
def Statement.writes : Statement → List Assignment
  | assignment as => as
  | _ => []

/-- The assignments that the line makes. -/
def NumberedLine.writes (l : NumberedLine) : List Assignment :=
  l.statement?.elim [] Statement.writes

theorem NumberedLine.Reads.writes_eq {l : NumberedLine} {statement : Statement} (h : l.Reads statement) :
    l.writes = statement.writes := by
  rw [NumberedLine.writes, NumberedLine.reads_iff.mp h]
  rfl

/-- The assignments of the lines that a pass reads outside blocks. -/
def writesOutside {ε σ : Type} (step : σ → NumberedLine → Traced ε σ) (outside : σ → Bool) (s : σ)
    (ls : List NumberedLine) : List Assignment :=
  (linesOutside step outside s ls).flatMap fun line => line.statement.writes

@[simp] theorem writesOutside_nil {ε σ : Type} (step : σ → NumberedLine → Traced ε σ) (outside : σ → Bool) (s : σ) :
    writesOutside step outside s [] = [] := rfl

theorem writesOutside_cons {ε σ : Type} {step : σ → NumberedLine → Traced ε σ} {outside : σ → Bool} {s s' : σ}
    {l : NumberedLine} (hl : (step s l).result = .ok s') (ls : List NumberedLine) :
    writesOutside step outside s (l :: ls) =
      (if outside s then l.writes else []) ++ writesOutside step outside s' ls := by
  have hline :
      ((Line.ofText l.number l.text).toOption.toList.flatMap fun line => line.statement.writes) = l.writes := by
    rw [NumberedLine.writes, NumberedLine.statement?]
    cases Line.ofText l.number l.text <;> simp [Except.toOption]
  rw [writesOutside, linesOutside, hl]
  dsimp only
  rw [List.flatMap_append]
  cases outside s
  · rfl
  · rw [if_pos rfl, if_pos rfl, hline]
    rfl

namespace Collector

variable {c c' : Collector} {l : NumberedLine} {ls : List NumberedLine} {as : List Assignment}

/-- The first pass leaves the globals settled for the assignments that it has made. -/
theorem Flat.settled_step (h : c.Flat) (hc : (c.step l).result = .ok c') (hsettled : c.scopes.globals.Settled as) :
    c'.scopes.globals.Settled (as ++ if c.skip.isNone then l.writes else []) := by
  have hnothing : ∀ scopes : Scopes, scopes.globals.Settled as → scopes.globals.Settled (as ++ []) := by
    intro scopes hs
    rwa [List.append_nil]
  cases result_step_eq_ok_iff.mp hc with
  | more hskip _ => rw [hskip]; exact hnothing _ hsettled
  | done hskip _ => rw [hskip]; exact hnothing _ hsettled
  | @idle statement hskip hl hsilent =>
    rw [hskip, hl.writes_eq]
    rcases hsilent with hsilent | rfl | ⟨call, rfl⟩
    · obtain rfl | rfl := Statement.eq_of_isSilent hsilent
      · exact hnothing _ hsettled
      · exact hnothing _ hsettled
    · exact hnothing _ hsettled
    · exact hnothing _ hsettled
  | declaration hskip hl run =>
    rw [hskip, hl.writes_eq]
    exact hnothing _ (Declaration.settled_of_perform run h.stack hsettled)
  | assignment hskip hl run =>
    rw [hskip, hl.writes_eq]
    obtain ⟨hknown, hglobals⟩ := globals_of_performAll run h.stack
    dsimp only
    rw [hglobals]
    exact hsettled.recordAll hknown
  | function hskip hl _ => rw [hskip, hl.writes_eq]; exact hnothing _ hsettled
  | guard hskip hl => rw [hskip, hl.writes_eq]; exact hnothing _ hsettled
  | close hskip hl _ => rw [hskip, hl.writes_eq]; exact hnothing _ hsettled

theorem Flat.settled_of_leads (h : c.Flat) (hc : Leads Collector.step c ls c')
    (hsettled : c.scopes.globals.Settled as) :
    c'.scopes.globals.Settled (as ++ writesOutside Collector.step (·.skip.isNone) c ls) := by
  induction ls generalizing c as with
  | nil =>
    rw [← leads_nil.mp hc]
    rwa [writesOutside_nil, List.append_nil]
  | cons l ls ih =>
    obtain ⟨c₁, hc₁, hc₂⟩ := leads_cons.mp hc
    rw [writesOutside_cons hc₁, ← List.append_assoc]
    exact ih (h.step hc₁).1 hc₂ (h.settled_step hc₁ hsettled)

end Collector

namespace Checker

variable {functions : Functions} {s s' : Checker} {l : NumberedLine} {ls : List NumberedLine}

/-- The second pass records the values of the assignments outside functions, and nothing else of its lines shows in the
globals. -/
theorem Lockstep.globals_step (h : s.Lockstep) (hs : (s.step functions l).result = .ok s') :
    s'.scopes.globals = s.scopes.globals.recordAll (if s.blocks.isEmpty then l.writes else []) := by
  cases hblocks : s.blocks with
  | nil =>
    have hstack := h.stack_eq_nil hblocks
    cases (result_step_outside_iff hblocks).mp hs with
    | @idle statement hl known =>
      rw [hl.writes_eq]
      rcases known with hsilent | ⟨d, rfl⟩
      · obtain rfl | rfl := Statement.eq_of_isSilent hsilent
        · rfl
        · rfl
      · rfl
    | replay hl run =>
      rw [hl.writes_eq]
      exact (globals_of_performAll run hstack).2
    | enter hl params =>
      rw [hl.writes_eq]
      exact (of_declareParam params).2.2.2.globals (by simp [Scopes.openFunction])
    | stray hl _ =>
      rw [hl.writes_eq]
      rfl
  | cons b outer => exact h.globals hs hblocks

theorem Lockstep.globals_of_leads (h : s.Lockstep) (hs : Leads (Checker.step functions) s ls s') :
    s'.scopes.globals =
      s.scopes.globals.recordAll (writesOutside (Checker.step functions) (·.blocks.isEmpty) s ls) := by
  induction ls generalizing s with
  | nil =>
    rw [← leads_nil.mp hs]
    rfl
  | cons l ls ih =>
    obtain ⟨s₁, hs₁, hs₂⟩ := leads_cons.mp hs
    rw [writesOutside_cons hs₁, Table.recordAll_append, ← h.globals_step hs₁]
    exact ih (h.step hs₁) hs₂

end Checker

/-! ### The points of the second pass -/

namespace Checker

/-- Leaving the open blocks leaves the globals as they are. -/
theorem globals_unwind (s : Checker) : s.unwind.scopes.globals = s.scopes.globals := by
  have hleave : ∀ (blocks : List OpenBlock) (scopes : Scopes),
      (blocks.foldl (fun scopes b => b.leave scopes) scopes).globals = scopes.globals := by
    intro blocks
    induction blocks with
    | nil => exact fun _ => rfl
    | cons b blocks ih =>
      intro scopes
      rw [List.foldl_cons, ih]
      cases hopener : b.opener <;> simp [OpenBlock.leave, hopener]
  exact hleave s.blocks s.scopes

/-- The variables at a point of the second pass over a program, with what the first one knows in the end. -/
inductive Point (source : Source) (c : Collector) : Scopes → Prop where
  /-- Between two lines, or before the first or behind the last one. -/
  | between {before rest : List NumberedLine} {s : Checker} (split : source.lines = before ++ rest)
      (run : Leads (step c.functions) { scopes := c.scopes } before s) : Point source c s.scopes
  /-- While a line is dealt with, and where it is refused. -/
  | within {s : Checker} {l : NumberedLine} {rest : List NumberedLine} {scopes : Scopes}
      (reaches : Reaches source c s l rest) (within : s.Within l scopes) : Point source c scopes
  /-- When the pass has failed and all blocks are left. -/
  | failed {stop : Stop Checker} (run : (run source c.functions c.scopes).result = .error stop) :
      Point source c stop.state.scopes

end Checker

/-! ### The globals at these points -/

section Program

variable {source : Source} {c : Collector}

/-- Some of the assignments of a line are legal where all of them are, and lead part of the way. -/
theorem Assigns.exists_of_append {env env' : Env} {done more : List Assignment} (h : Assigns env (done ++ more) env') :
    ∃ mid, Assigns env done mid ∧ Assigns mid more env' := by
  induction done generalizing env with
  | nil => exact ⟨env, .nil, h⟩
  | cons a done ih =>
    cases h with
    | cons target changeable fits rest =>
      obtain ⟨mid, hdone, hmore⟩ := ih rest
      exact ⟨mid, .cons target changeable fits hdone, hmore⟩

/-- While a line is dealt with, the globals are declared and assigned as the first pass has left them. -/
theorem globalEnv_of_within (hc : (Collector.run source).result = .ok c) {s : Checker} {l : NumberedLine}
    {rest : List NumberedLine} {scopes : Scopes} (hreaches : Checker.Reaches source c s l rest)
    (hwithin : s.Within l scopes) : scopes.globalEnv = c.scopes.globalEnv := by
  obtain ⟨before, hsplit, hs⟩ := hreaches
  obtain ⟨c₁, -, hrest, haligned⟩ := exists_aligned hc hsplit hs
  have htop : c.scopes.env = c.scopes.globalEnv := Scopes.env_of_stack_eq_nil (Collector.flat_of_run hc).stack
  have hstart : s.scopes.globalEnv = c.scopes.globalEnv := haligned.globals.trans htop
  have hinside : ∀ scopes, s.scopes.Keeps scopes → s.blocks ≠ [] → scopes.globalEnv = c.scopes.globalEnv := by
    intro scopes hkeeps hblocks
    rw [Scopes.globalEnv_congr (hkeeps.globals (haligned.lockstep.stack_ne_nil hblocks)), hstart]
  cases hwithin with
  | start => exact hstart
  | @assigned done more _ hl run =>
    obtain ⟨hassigns, hkeeps⟩ := of_performAll run
    by_cases houtside : s.blocks = []
    · -- the first pass has made these assignments before
      obtain ⟨c₂, hc₂, hrest⟩ := leads_cons.mp hrest
      have hgrows := (haligned.extends_of_leads hc₂ hrest).env
      rw [Collector.result_step_of_reads (haligned.skip_eq_none_iff.mpr houtside) hl] at hc₂
      obtain ⟨scopes₂, hrun, rfl⟩ := Collector.result_withScopes_eq_ok_iff.mp hc₂
      obtain ⟨mid, hdone, hmore⟩ := (of_performAll hrun).1.exists_of_append
      have hreplay := hdone.replay (hmore.grows.trans hgrows)
      rw [haligned.env_eq houtside] at hassigns
      have hstack : scopes.stack = [] := List.length_eq_zero_iff.mp
        (hkeeps.height.trans (congrArg List.length (haligned.lockstep.stack_eq_nil houtside)))
      rw [← Scopes.env_of_stack_eq_nil hstack, hassigns.unique hreplay, htop]
    · exact hinside scopes hkeeps houtside
  | declared hblocks _ _ run => exact hinside scopes (Declaration.of_performOne run).2 hblocks
  | entered _ _ _ run =>
    have hglobals := (of_declareParam run).2.2.2.globals (by simp [Scopes.openFunction])
    exact (Scopes.globalEnv_congr hglobals).trans hstart

theorem globalEnv_of_point (hc : (Collector.run source).result = .ok c) {scopes : Scopes}
    (h : Checker.Point source c scopes) : scopes.globalEnv = c.scopes.globalEnv := by
  have hbetween : ∀ {before rest : List NumberedLine} {s : Checker}, source.lines = before ++ rest →
      Leads (Checker.step c.functions) { scopes := c.scopes } before s → s.scopes.globalEnv = c.scopes.globalEnv := by
    intro before rest s hsplit hs
    obtain ⟨c₁, -, -, haligned⟩ := exists_aligned hc hsplit hs
    exact haligned.globals.trans (Scopes.env_of_stack_eq_nil (Collector.flat_of_run hc).stack)
  cases h with
  | between hsplit hs => exact hbetween hsplit hs
  | within hreaches hwithin => exact globalEnv_of_within hc hreaches hwithin
  | failed hrun =>
    obtain ⟨s, l, rest, state, hreaches, hl, hunwind⟩ := exists_refused hc hrun
    rw [hunwind, Scopes.globalEnv_congr (Checker.globals_unwind state)]
    exact globalEnv_of_within hc hreaches (Checker.stop_of_step hl).within

/-- Making the assignments outside functions once more changes nothing that the rules look at.  At every point of the
second pass the globals have the same names as when the first pass was over, each with the same type and finality, and
with a value if and only if it had one then.  Where the second pass comes to its end, they are the same altogether. -/
theorem globals_of_replay (hc : (Collector.run source).result = .ok c) :
    (∀ scopes, Checker.Point source c scopes → ∀ name,
      (scopes.globals.find? name).map Variable.standing = (c.scopes.globals.find? name).map Variable.standing) ∧
    ∀ s, (Checker.run source c.functions c.scopes).result = .ok s → s.scopes.globals = c.scopes.globals := by
  refine ⟨fun scopes hpoint name => ?_, fun s hs => ?_⟩
  · have hsame := globalEnv_of_point hc hpoint
    exact congrFun (congrArg Layers.inner hsame) name
  · have hflat := Collector.flat_of_run hc
    have hlead := (Collector.result_run_eq_ok_iff.mp hc).1
    obtain ⟨hrun, -, -⟩ := Checker.result_run_eq_ok_iff.mp hs
    have hsettled := Collector.flat_start.settled_of_leads hlead (Table.Settled.nil _)
    have hlines := (Aligned.start hflat).linesOutside_eq hlead hrun (.refl _)
    have hwrites := (Checker.lockstep_start hflat.stack).globals_of_leads hrun
    rw [writesOutside, hlines] at hwrites
    rw [List.nil_append] at hsettled
    exact hwrites.trans hsettled.eq

/-- A global that has two values one after the other, with a function between that gives it a third. -/
def rolledBack : Source :=
  ⟨"rolled back", "int a;\na = 1;\nvoid f() \x7b\n  a = 2;\n  return;\n\x7d\na = 3;\n"⟩

/-- Behind the first assignment the value is the earlier one again, and in the end it is the last one. -/
theorem globals_of_replay_rolledBack :
    ∃ c s t, (Collector.run rolledBack).result = .ok c ∧
      (Checker.run rolledBack c.functions c.scopes).result = .ok s ∧
      Checker.Point rolledBack c t ∧ t.globals ≠ c.scopes.globals ∧
      (t.globals.find? "a").map Variable.standing = (c.scopes.globals.find? "a").map Variable.standing ∧
      s.scopes.globals = c.scopes.globals := by
  have hrun : ((Collector.run rolledBack).result.toOption.any fun c =>
      (Checker.run rolledBack c.functions c.scopes).result.toOption.isSome &&
        ((rolledBack.lines.take 2).foldlM (Checker.step c.functions) { scopes := c.scopes }).result.toOption.any
          fun t => t.scopes.globals ≠ c.scopes.globals) = true := by decide +kernel
  cases hc : (Collector.run rolledBack).result with
  | error stop => rw [hc] at hrun; cases hrun
  | ok c =>
    simp only [hc, Except.toOption, Option.any_some, Bool.and_eq_true] at hrun
    obtain ⟨hcheck, hearly⟩ := hrun
    cases hs : (Checker.run rolledBack c.functions c.scopes).result with
    | error stop => simp [hs] at hcheck
    | ok s =>
      cases ht : ((rolledBack.lines.take 2).foldlM (Checker.step c.functions) { scopes := c.scopes }).result with
      | error stop => simp [ht] at hearly
      | ok t =>
        have hpoint : Checker.Point rolledBack c t.scopes := .between (List.take_append_drop 2 _).symm ht
        obtain ⟨hpoints, hend⟩ := globals_of_replay hc
        exact ⟨c, s, t.scopes, rfl, hs, hpoint, by simpa [ht] using hearly, hpoints _ hpoint "a", hend s hs⟩

end Program

end LineCheck
