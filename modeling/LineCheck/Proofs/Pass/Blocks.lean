import LineCheck.Proofs.Pass.Step

/-!
# LineCheck.Proofs.Pass.Blocks — the state of a pass between two lines

The second pass keeps its open blocks three times: in their list, in their number, and in the tables of variables.
`Checker.Lockstep` says that the three agree, and that conditions are open inside one function only; every line keeps
this (`Lockstep.step`), and changes the number of open blocks by the balance of its braces.

The first pass opens no table and no block (`Collector.Flat`); what it knows only grows (`Collector.Extends`).
-/

namespace LineCheck

open Traced Text

/-- The environment that the globals make. -/
def Scopes.globalEnv (s : Scopes) : Env :=
  ⟨fun name => (s.globals.find? name).map Variable.standing, []⟩

theorem Scopes.env_of_stack_eq_nil {s : Scopes} (h : s.stack = []) : s.env = s.globalEnv := by
  rw [env, layers_of_stack_eq_nil h]
  rfl

@[simp] theorem Scopes.env_openFunction (s : Scopes) : s.openFunction.env = s.globalEnv.openScope := rfl

theorem Scopes.globalEnv_congr {s s' : Scopes} (h : s'.globals = s.globals) : s'.globalEnv = s.globalEnv := by
  rw [globalEnv, globalEnv, h]

/-! ### The first pass -/

namespace Collector

variable {c c' c'' : Collector} {l : NumberedLine}

/-- A block is being passed over. -/
def InBlock (c : Collector) : Prop :=
  c.skip ≠ none

/-- No table is open and no block is counted. -/
structure Flat (c : Collector) : Prop where
  depth : c.depth = 0
  stack : c.scopes.stack = []

/-- What is known of variables and functions stays known. -/
structure Extends (c c' : Collector) : Prop where
  env : c.scopes.env.Grows c'.scopes.env
  functions : ∀ name sig, c.functions.find? name = some sig → c'.functions.find? name = some sig

theorem flat_start : ({} : Collector).Flat :=
  ⟨rfl, rfl⟩

theorem Extends.refl (c : Collector) : c.Extends c :=
  ⟨.refl _, fun _ _ h => h⟩

theorem Extends.trans (h : c.Extends c') (h' : c'.Extends c'') : c.Extends c'' :=
  ⟨h.env.trans h'.env, fun name sig hsig => h'.functions name sig (h.functions name sig hsig)⟩

theorem Flat.outer_env (h : c.Flat) : c.scopes.env.outer = [] := by
  rw [Scopes.env_of_stack_eq_nil h.stack]
  rfl

theorem Flat.of_keeps {scopes : Scopes} (h : c.Flat) (hkeeps : c.scopes.Keeps scopes) : scopes.stack = [] := by
  have hheight := hkeeps.height
  rw [h.stack] at hheight
  exact List.length_eq_zero_iff.mp hheight

theorem Flat.step (h : c.Flat) (hc : (c.step l).result = .ok c') : c'.Flat ∧ c.Extends c' := by
  have hsame : ∀ number skip, Extends c { c with line := number, skip } := fun _ _ => ⟨.refl _, fun _ _ h => h⟩
  cases result_step_eq_ok_iff.mp hc with
  | more _ _ => exact ⟨⟨h.depth, h.stack⟩, hsame _ _⟩
  | done _ _ => exact ⟨⟨h.depth, h.stack⟩, hsame _ _⟩
  | idle _ _ _ => exact ⟨⟨h.depth, h.stack⟩, hsame _ _⟩
  | guard _ _ => exact ⟨⟨h.depth, h.stack⟩, hsame _ _⟩
  | declaration _ _ run =>
    obtain ⟨hdeclares, hkeeps⟩ := Declaration.of_perform run
    exact ⟨⟨h.depth, h.of_keeps hkeeps⟩, hdeclares.grows h.outer_env, fun _ _ hsig => hsig⟩
  | assignment _ _ run =>
    obtain ⟨hassigns, hkeeps⟩ := of_performAll run
    exact ⟨⟨h.depth, h.of_keeps hkeeps⟩, hassigns.grows, fun _ _ hsig => hsig⟩
  | function _ _ declared =>
    refine ⟨⟨h.depth, h.stack⟩, .refl _, fun name sig hsig => ?_⟩
    rw [Functions.find?_of_declare declared]
    split
    · next hname =>
      rw [← hname, Functions.find?_eq_none_of_declare declared] at hsig
      cases hsig
    · exact hsig
  | close _ _ opened =>
    have hdepth := h.depth
    omega

theorem Flat.leads {ls : List NumberedLine} (h : c.Flat) (hc : Leads Collector.step c ls c') :
    c'.Flat ∧ c.Extends c' := by
  induction ls generalizing c with
  | nil => exact leads_nil.mp hc ▸ ⟨h, .refl c⟩
  | cons l ls ih =>
    obtain ⟨c₁, h₁, h₂⟩ := leads_cons.mp hc
    obtain ⟨hflat, hext⟩ := h.step h₁
    obtain ⟨hflat', hext'⟩ := ih hflat h₂
    exact ⟨hflat', hext.trans hext'⟩

/-- Inside a block that is passed over only the braces of a line count. -/
theorem skip_of_step {k : Skip} (hc : (c.step l).result = .ok c') (hskip : c.skip = some k) :
    c'.skip = if 0 < k.balance + netBraces l.text then some { k with balance := k.balance + netBraces l.text }
      else none := by
  rw [result_step_of_skip hskip, passOver] at hc
  dsimp only at hc
  split at hc
  · next hmore => cases hc; rw [if_pos hmore]
  · next hdone => cases hc; rw [if_neg hdone]

/-- Outside blocks a line that opens a brace makes the first pass pass over a block. -/
theorem Flat.skip_of_step (h : c.Flat) (hc : (c.step l).result = .ok c') (hskip : c.skip = none) :
    ∃ statement, l.Reads statement ∧
      (statement.braces = 0 ∧ c'.skip = none ∨ statement.braces = 1 ∧ c'.skip = some ⟨l.number, 1⟩) := by
  obtain ⟨statement, hl⟩ := reads_of_step hskip hc
  rw [result_step_of_reads hskip hl] at hc
  refine ⟨statement, hl, ?_⟩
  cases statement with
  | blank => cases hc; exact .inl ⟨rfl, hskip⟩
  | comment => cases hc; exact .inl ⟨rfl, hskip⟩
  | declaration d => obtain ⟨-, -, rfl⟩ := result_withScopes_eq_ok_iff.mp hc; exact .inl ⟨rfl, hskip⟩
  | assignment as => obtain ⟨-, -, rfl⟩ := result_withScopes_eq_ok_iff.mp hc; exact .inl ⟨rfl, hskip⟩
  | function hd => obtain ⟨-, -, rfl⟩ := result_register_eq_ok_iff.mp hc; exact .inr ⟨rfl, rfl⟩
  | call c => cases hc; exact .inl ⟨rfl, hskip⟩
  | guard w c => cases hc; exact .inr ⟨rfl, rfl⟩
  | «return» => cases hc; exact .inl ⟨rfl, hskip⟩
  | closeBrace =>
    simp only [perform, closeBlock, h.depth] at hc
    cases hc

theorem result_finish_eq_ok_iff {source : String} :
    (c.finish source).result = .ok c' ↔ (c.skip = none ∧ c.depth = 0) ∧ c = c' := by
  have hclosed : ¬(c.skip.isSome || c.depth != 0) = true ↔ c.skip = none ∧ c.depth = 0 := by simp
  rw [finish, result_ite_stop_eq_ok_iff, hclosed, result_emit_bind, result_pure, Except.ok.injEq]

/-- The first pass ends outside blocks. -/
theorem result_run_eq_ok_iff {source : Source} :
    (run source).result = .ok c ↔ Leads Collector.step {} source.lines c ∧ c.skip = none ∧ c.depth = 0 := by
  rw [run, result_emit_bind, result_bind_eq_ok_iff]
  constructor
  · rintro ⟨s, hlead, h⟩
    obtain ⟨hend, rfl⟩ := result_finish_eq_ok_iff.mp h
    exact ⟨hlead, hend⟩
  · rintro ⟨hlead, hend⟩
    exact ⟨c, hlead, result_finish_eq_ok_iff.mpr ⟨hend, rfl⟩⟩

theorem flat_of_run {source : Source} (hc : (run source).result = .ok c) : c.Flat := by
  obtain ⟨hlead, -, -⟩ := result_run_eq_ok_iff.mp hc
  exact (flat_start.leads hlead).1

end Collector

/-! ### The second pass -/

theorem Statement.Performs.keeps {functions : Functions} {number : Nat} {scopes scopes' : Scopes}
    {statement : Statement} (h : statement.Performs functions number scopes scopes') : scopes.Keeps scopes' := by
  cases h with
  | declaration run => exact (Declaration.of_perform run).2
  | assignment run => exact (of_performAll run).2
  | blank => exact .refl _
  | comment => exact .refl _
  | call _ => exact .refl _
  | «return» => exact .refl _

theorem Statement.Performs.braces_eq {functions : Functions} {number : Nat} {scopes scopes' : Scopes}
    {statement : Statement} (h : statement.Performs functions number scopes scopes') : statement.braces = 0 := by
  cases h <;> rfl

namespace Checker

/-- A block is open. -/
def InBlock (s : Checker) : Prop :=
  s.blocks ≠ []

/-- The blocks of conditions inside a function, the innermost first. -/
inductive Nested : List OpenBlock → Prop where
  | function (returns : Bool) : Nested [⟨.function, returns⟩]
  | guard (returns : Bool) {outer : List OpenBlock} (rest : Nested outer) : Nested (⟨.guard, returns⟩ :: outer)

theorem Nested.ne_nil {blocks : List OpenBlock} (h : Nested blocks) : blocks ≠ [] := by
  cases h <;> simp

theorem Nested.after {b : OpenBlock} {outer : List OpenBlock} (h : Nested (b :: outer)) (statement : Statement) :
    Nested (b.after statement :: outer) := by
  have hafter : b.after statement = ⟨b.opener, (b.after statement).returns⟩ := by
    unfold OpenBlock.after
    split <;> rfl
  rw [hafter]
  cases h with
  | function _ => exact .function _
  | guard _ rest => exact .guard _ rest

/-- The number of open blocks and the open tables are those of the list of open blocks; outside functions there are
none, and a function has its own table and a copy of the globals. -/
structure Lockstep (s : Checker) : Prop where
  depth : s.depth = s.blocks.length
  stack : s.blocks = [] ∧ s.scopes.stack = [] ∨ Nested s.blocks ∧ s.scopes.stack.length = s.blocks.length + 1

variable {functions : Functions} {s s' : Checker} {l : NumberedLine} {b : OpenBlock} {outer : List OpenBlock}

theorem lockstep_start {scopes : Scopes} (h : scopes.stack = []) : Lockstep { scopes } :=
  ⟨rfl, .inl ⟨rfl, h⟩⟩

theorem Lockstep.stack_eq_nil (h : s.Lockstep) (houtside : s.blocks = []) : s.scopes.stack = [] := by
  obtain ⟨-, hstack⟩ | ⟨hnested, -⟩ := h.stack
  · exact hstack
  · exact absurd houtside hnested.ne_nil

theorem Lockstep.nested (h : s.Lockstep) (hinside : s.blocks ≠ []) :
    Nested s.blocks ∧ s.scopes.stack.length = s.blocks.length + 1 :=
  h.stack.resolve_left fun hout => hinside hout.1

theorem Lockstep.stack_ne_nil (h : s.Lockstep) (hinside : s.blocks ≠ []) : s.scopes.stack ≠ [] := by
  have hlength := (h.nested hinside).2
  intro hnil
  rw [hnil] at hlength
  simp at hlength

theorem Lockstep.step_outside (h : s.Lockstep) (houtside : s.blocks = []) (hs : s.MovesOutside l s') :
    s'.Lockstep := by
  have hdepth := h.depth
  have hstack := h.stack_eq_nil houtside
  cases hs with
  | idle _ _ => exact ⟨hdepth, h.stack⟩
  | replay _ run =>
    have hheight := (of_performAll run).2.height
    rw [hstack] at hheight
    exact ⟨hdepth, .inl ⟨houtside, List.length_eq_zero_iff.mp hheight⟩⟩
  | enter _ params =>
    have hheight := (of_declareParam params).2.2.2.height
    exact ⟨by simp [hdepth, houtside], .inr ⟨.function false, hheight⟩⟩
  | stray _ opened =>
    rw [houtside, opened] at hdepth
    cases hdepth

theorem Lockstep.step_inside (h : s.Lockstep) (hinside : s.blocks = b :: outer)
    (hs : s.MovesInside functions b outer l s') : s'.Lockstep := by
  have hdepth := h.depth
  obtain ⟨hnested, hlength⟩ := h.nested (by simp [hinside])
  rw [hinside] at hnested hlength hdepth
  cases hs with
  | line _ run => exact ⟨hdepth, .inr ⟨hnested.after _, run.keeps.height.trans hlength⟩⟩
  | guard _ _ => exact ⟨congrArg (· + 1) hdepth, .inr ⟨.guard false (hnested.after _), congrArg (· + 1) hlength⟩⟩
  | close _ opened _ =>
    rw [opened] at hdepth
    refine ⟨Nat.succ.inj hdepth, ?_⟩
    cases hnested with
    | function _ => exact .inl ⟨rfl, rfl⟩
    | guard _ rest =>
      refine .inr ⟨rest, ?_⟩
      simp only [OpenBlock.leave, Scopes.closeInnermost, List.length_tail, hlength]
      rfl

/-- A line keeps the three in step. -/
theorem Lockstep.step (h : s.Lockstep) (hs : (s.step functions l).result = .ok s') : s'.Lockstep := by
  cases hblocks : s.blocks with
  | nil => exact h.step_outside hblocks ((result_step_outside_iff hblocks).mp hs)
  | cons b outer => exact h.step_inside hblocks ((result_step_inside_iff hblocks).mp hs)

theorem Lockstep.leads {ls : List NumberedLine} (h : s.Lockstep) (hs : Leads (Checker.step functions) s ls s') :
    s'.Lockstep :=
  hs.preserves (fun _ _ _ h hs => h.step hs) h

/-- A line changes the number of open blocks by the balance of its braces. -/
theorem Lockstep.length_blocks (h : s.Lockstep) (hs : (s.step functions l).result = .ok s') :
    (s'.blocks.length : Int) = s.blocks.length + netBraces l.text := by
  have hdepth := h.depth
  cases hblocks : s.blocks with
  | nil =>
    rw [hblocks] at hdepth
    cases (result_step_outside_iff hblocks).mp hs with
    | @idle statement hl known =>
      have hbraces : statement.braces = 0 := by
        rcases known with hsilent | ⟨d, rfl⟩
        · obtain rfl | rfl := Statement.eq_of_isSilent hsilent <;> rfl
        · rfl
      rw [hl.netBraces_eq, hbraces, hblocks, Int.add_zero]
    | replay hl _ => rw [hl.netBraces_eq, hblocks]; rfl
    | enter hl _ => rw [hl.netBraces_eq]; rfl
    | stray _ opened => rw [opened] at hdepth; cases hdepth
  | cons b outer =>
    cases (result_step_inside_iff hblocks).mp hs with
    | line hl run => rw [hl.netBraces_eq, run.braces_eq, Int.add_zero]; rfl
    | guard hl _ => rw [hl.netBraces_eq]; rfl
    | close hl _ _ =>
      rw [hl.netBraces_eq, List.length_cons, Statement.braces]
      dsimp only
      omega

/-- Only an assignment outside functions changes the globals. -/
theorem Lockstep.globals (h : s.Lockstep) (hs : (s.step functions l).result = .ok s')
    (hinside : s.blocks = b :: outer) : s'.scopes.globals = s.scopes.globals := by
  cases (result_step_inside_iff hinside).mp hs with
  | line _ run => exact run.keeps.globals (h.stack_ne_nil (by simp [hinside]))
  | guard _ _ => rfl
  | close _ _ _ =>
    simp only [OpenBlock.leave]
    cases b.opener <;> rfl

theorem result_finish_eq_ok_iff {source : String} :
    (s.finish source).result = .ok s' ↔ (s.blocks = [] ∧ s.depth = 0) ∧ s = s' := by
  have hclosed : ¬(!s.blocks.isEmpty || s.depth != 0) = true ↔ s.blocks = [] ∧ s.depth = 0 := by simp
  rw [finish, result_ite_stop_eq_ok_iff, hclosed, result_emit_bind, result_pure, Except.ok.injEq]

/-- The second pass ends outside blocks. -/
theorem result_run_eq_ok_iff {source : Source} {scopes : Scopes} :
    (run source functions scopes).result = .ok s ↔
      Leads (Checker.step functions) { scopes } source.lines s ∧ s.blocks = [] ∧ s.depth = 0 := by
  rw [run, result_mapError_eq_ok_iff, result_emit_bind, result_bind_eq_ok_iff]
  constructor
  · rintro ⟨t, hlead, h⟩
    obtain ⟨hend, rfl⟩ := result_finish_eq_ok_iff.mp h
    exact ⟨hlead, hend⟩
  · rintro ⟨hlead, hend⟩
    exact ⟨s, hlead, result_finish_eq_ok_iff.mpr ⟨hend, rfl⟩⟩

end Checker

end LineCheck
