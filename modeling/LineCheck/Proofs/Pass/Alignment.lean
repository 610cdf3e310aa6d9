import LineCheck.Proofs.Pass.Blocks

/-!
# LineCheck.Proofs.Pass.Alignment — both passes see the same functions

The first pass finds the end of a function by counting the braces of lines that it does not read, the second one by
reading them.  Between any two lines that both passes have come to, they are `Aligned`: the second pass is inside a
function exactly where the first one passes over a block, and has as many blocks open as the first one counts braces.
A line that the second pass can read changes both numbers alike (`NumberedLine.Reads.netBraces_eq`), and where it
cannot read a line it stops.

`Collector.Records` says which lines the first pass takes for the lines of a function, and `linesOutside` lists the
lines that a pass reads outside functions.  `passes_agree` compares the two passes in these terms.
-/

namespace LineCheck

open Traced Text

/-- In the line `first` the first pass records the function with the header `h`; it passes over the lines `body` up to
the last one of its block, and goes on with the lines `after`. -/
structure Collector.Records (source : Source) (first : NumberedLine) (h : Header) (body after : List NumberedLine) :
    Prop where
  header : first.Reads (.function h)
  passed : ∃ s s₁ s₂ : Collector, Reaches step {} source.lines s first (body ++ after) ∧ s.skip = none ∧
    (s.step first).result = .ok s₁ ∧ Through step InBlock s₁ body s₂ ∧ s₂.skip = none

/-- The second pass over a program, with what the first one knows in the end, comes to the line `l` in the state `s`. -/
def Checker.Reaches (source : Source) (c : Collector) (s : Checker) (l : NumberedLine) (rest : List NumberedLine) :
    Prop :=
  Traced.Reaches (step c.functions) { scopes := c.scopes } source.lines s l rest

/-- The lines that the steps read as statements outside blocks, up to the first line that a step refuses. -/
def linesOutside {ε σ : Type} (step : σ → NumberedLine → Traced ε σ) (outside : σ → Bool) (s : σ) :
    List NumberedLine → List Line
  | [] => []
  | l :: ls =>
    let here := if outside s then (Line.ofText l.number l.text).toOption.toList else []
    match (step s l).result with
    | .error _ => here
    | .ok s' => here ++ linesOutside step outside s' ls

/-- The lines that the first pass reads outside blocks. -/
def Collector.linesOutside (source : Source) : List Line :=
  LineCheck.linesOutside step (·.skip.isNone) {} source.lines

/-- The lines that the second pass reads outside blocks. -/
def Checker.linesOutside (source : Source) (c : Collector) : List Line :=
  LineCheck.linesOutside (step c.functions) (·.blocks.isEmpty) { scopes := c.scopes } source.lines

/-! ### The states of both passes between two lines -/

/-- The second pass is inside a function exactly where the first one passes over a block, with as many blocks open as
the first one counts braces, and its globals are as the environment `top` says. -/
structure Aligned (top : Env) (c : Collector) (s : Checker) : Prop where
  flat : c.Flat
  lockstep : s.Lockstep
  globals : s.scopes.globalEnv = top
  balance : c.skip = none ∧ s.blocks = [] ∨
    ∃ k, c.skip = some k ∧ s.blocks ≠ [] ∧ k.balance = s.blocks.length

namespace Aligned

variable {top : Env} {c c' c'' : Collector} {s s' : Checker} {l : NumberedLine} {ls : List NumberedLine}
  {functions : Functions}

theorem start {c : Collector} (h : c.Flat) : Aligned c.scopes.env {} { scopes := c.scopes } :=
  ⟨Collector.flat_start, Checker.lockstep_start h.stack, (Scopes.env_of_stack_eq_nil h.stack).symm, .inl ⟨rfl, rfl⟩⟩

theorem skip_eq_none_iff (h : Aligned top c s) : c.skip = none ↔ s.blocks = [] := by
  obtain ⟨hskip, hblocks⟩ | ⟨k, hskip, hblocks, -⟩ := h.balance
  · exact ⟨fun _ => hblocks, fun _ => hskip⟩
  · rw [hskip]
    exact ⟨fun hnone => (nomatch hnone), fun hnil => absurd hnil hblocks⟩

theorem env_eq (h : Aligned top c s) (houtside : s.blocks = []) : s.scopes.env = top :=
  (Scopes.env_of_stack_eq_nil (h.lockstep.stack_eq_nil houtside)).trans h.globals

/-- An assignment outside functions was made by the first pass already. -/
theorem replay (h : Aligned top c s) (houtside : s.blocks = []) {as : List Assignment} (hl : l.Reads (.assignment as))
    (hc : (c.step l).result = .ok c') (hgrows : c'.scopes.env.Grows top) : Assigns s.scopes.env as s.scopes.env := by
  rw [Collector.result_step_of_reads (h.skip_eq_none_iff.mpr houtside) hl] at hc
  obtain ⟨scopes, hrun, rfl⟩ := Collector.result_withScopes_eq_ok_iff.mp hc
  rw [h.env_eq houtside]
  exact (of_performAll hrun).1.replay hgrows

theorem globals_step (h : Aligned top c s) (hc : (c.step l).result = .ok c')
    (hs : (s.step functions l).result = .ok s') (hgrows : c'.scopes.env.Grows top) : s'.scopes.globalEnv = top := by
  cases hblocks : s.blocks with
  | nil =>
    cases (Checker.result_step_outside_iff hblocks).mp hs with
    | idle _ _ => exact h.globals
    | replay hl run =>
      have hstack := h.lockstep.stack_eq_nil hblocks
      have hstack' := List.length_eq_zero_iff.mp ((of_performAll run).2.height.trans (congrArg List.length hstack))
      rw [← h.env_eq hblocks, ← env_of_performAll_replay run (h.replay hblocks hl hc hgrows)]
      exact (Scopes.env_of_stack_eq_nil hstack').symm
    | enter _ params =>
      have hglobals := (of_declareParam params).2.2.2.globals (by simp [Scopes.openFunction])
      exact (Scopes.globalEnv_congr hglobals).trans h.globals
    | stray _ _ => exact h.globals
  | cons b outer => exact (Scopes.globalEnv_congr (h.lockstep.globals hs hblocks)).trans h.globals

/-- Both numbers change by the balance of the braces of the line. -/
theorem balance_step (h : Aligned top c s) (hc : (c.step l).result = .ok c')
    (hs : (s.step functions l).result = .ok s') :
    c'.skip = none ∧ s'.blocks = [] ∨ ∃ k, c'.skip = some k ∧ s'.blocks ≠ [] ∧ k.balance = s'.blocks.length := by
  have hlength := h.lockstep.length_blocks hs
  obtain ⟨hskip, houtside⟩ | ⟨k, hskip, -, hbalance⟩ := h.balance
  · obtain ⟨statement, hl, ⟨hbraces, hskip'⟩ | ⟨hbraces, hskip'⟩⟩ := h.flat.skip_of_step hc hskip
    · rw [houtside, hl.netBraces_eq, hbraces] at hlength
      have hzero : s'.blocks.length = 0 := by simpa using hlength
      exact .inl ⟨hskip', List.length_eq_zero_iff.mp hzero⟩
    · rw [houtside, hl.netBraces_eq, hbraces] at hlength
      refine .inr ⟨_, hskip', fun hnil => ?_, hlength.symm⟩
      rw [hnil] at hlength
      cases hlength
  · have hskip' := Collector.skip_of_step hc hskip
    split at hskip'
    · refine .inr ⟨_, hskip', fun hnil => ?_, by dsimp only; omega⟩
      rw [hnil, List.length_nil] at hlength
      omega
    · have hzero : s'.blocks.length = 0 := by omega
      exact .inl ⟨hskip', List.length_eq_zero_iff.mp hzero⟩

theorem step (h : Aligned top c s) (hc : (c.step l).result = .ok c') (hs : (s.step functions l).result = .ok s')
    (hgrows : c'.scopes.env.Grows top) : Aligned top c' s' :=
  ⟨(h.flat.step hc).1, h.lockstep.step hs, h.globals_step hc hs hgrows, h.balance_step hc hs⟩

/-- What the first pass knows after a line of a run, it knows at the end of the run. -/
theorem extends_of_leads (h : Aligned top c s) (hc : (c.step l).result = .ok c')
    (hrest : Leads Collector.step c' ls c'') : c'.Extends c'' :=
  ((h.flat.step hc).1.leads hrest).2

/-- A line of a run of the first pass. -/
theorem next (h : Aligned top c s) (hc : (c.step l).result = .ok c') (hrest : Leads Collector.step c' ls c'')
    (hs : (s.step functions l).result = .ok s') (hgrows : c''.scopes.env.Grows top) : Aligned top c' s' :=
  h.step hc hs ((h.extends_of_leads hc hrest).env.trans hgrows)

/-- Lines that both passes go over leave them aligned. -/
theorem leads (h : Aligned top c s) (hc : Leads Collector.step c ls c')
    (hs : Leads (Checker.step functions) s ls s') (hgrows : c'.scopes.env.Grows top) : Aligned top c' s' := by
  induction ls generalizing c s with
  | nil => exact leads_nil.mp hc ▸ leads_nil.mp hs ▸ h
  | cons l ls ih =>
    obtain ⟨c₁, hc₁, hc₂⟩ := leads_cons.mp hc
    obtain ⟨s₁, hs₁, hs₂⟩ := leads_cons.mp hs
    exact ih (h.next hc₁ hc₂ hs₁ hgrows) hc₂ hs₂

/-- The second pass has left a block when it has read exactly the lines that the first pass passes over; until then the
line that it reads next is one of them. -/
theorem through {c₂ : Collector} {s₂ : Checker} {body after part : List NumberedLine} (h : Aligned top c s)
    (hbody : Through Collector.step Collector.InBlock c body c₂) (hskip : c₂.skip = none)
    (hgrows : c₂.scopes.env.Grows top) (hpart : part <+: body ++ after)
    (hs : Through (Checker.step functions) Checker.InBlock s part s₂) :
    s₂.blocks = [] ∧ part = body ∨ s₂.blocks ≠ [] ∧ ∃ next more, body = part ++ next :: more := by
  induction hbody generalizing s part with
  | nil =>
    have houtside := h.skip_eq_none_iff.mp hskip
    cases hs with
    | nil => exact .inl ⟨houtside, rfl⟩
    | cons hinside _ _ => exact absurd houtside hinside
  | @cons c c₁ c₂ l body hover hc₁ hrest ih =>
    cases hs with
    | nil => exact .inr ⟨fun houtside => hover (h.skip_eq_none_iff.mpr houtside), l, body, rfl⟩
    | @cons _ s₁ _ l' part _ hs₁ hpart' =>
      obtain ⟨rfl, hprefix⟩ := List.cons_prefix_cons.mp hpart
      have haligned := h.next hc₁ hrest.leads hs₁ hgrows
      obtain ⟨hleft, rfl⟩ | ⟨hopen, next, more, rfl⟩ := ih haligned hskip hgrows hprefix hpart'
      · exact .inl ⟨hleft, rfl⟩
      · exact .inr ⟨hopen, next, more, rfl⟩

theorem isEmpty_blocks (h : Aligned top c s) : s.blocks.isEmpty = c.skip.isNone := by
  rw [Bool.eq_iff_iff, List.isEmpty_iff, Option.isNone_iff_eq_none, h.skip_eq_none_iff]

/-- Up to its first failure the second pass reads the same lines outside blocks. -/
theorem linesOutside_prefix (h : Aligned top c s) (hc : Leads Collector.step c ls c')
    (hgrows : c'.scopes.env.Grows top) :
    linesOutside (Checker.step functions) (·.blocks.isEmpty) s ls <+:
      linesOutside Collector.step (·.skip.isNone) c ls := by
  induction ls generalizing c s with
  | nil => exact List.prefix_rfl
  | cons l ls ih =>
    obtain ⟨c₁, hc₁, hc₂⟩ := leads_cons.mp hc
    simp only [linesOutside, h.isEmpty_blocks, hc₁]
    cases hs₁ : (s.step functions l).result with
    | error stop => exact List.prefix_append _ _
    | ok s₁ =>
      have haligned := h.next hc₁ hc₂ hs₁ hgrows
      exact (List.prefix_append_right_inj _).mpr (ih haligned hc₂)

/-- Where the second pass does not fail, it reads all of them. -/
theorem linesOutside_eq (h : Aligned top c s) (hc : Leads Collector.step c ls c')
    (hs : Leads (Checker.step functions) s ls s') (hgrows : c'.scopes.env.Grows top) :
    linesOutside (Checker.step functions) (·.blocks.isEmpty) s ls =
      linesOutside Collector.step (·.skip.isNone) c ls := by
  induction ls generalizing c s with
  | nil => rfl
  | cons l ls ih =>
    obtain ⟨c₁, hc₁, hc₂⟩ := leads_cons.mp hc
    obtain ⟨s₁, hs₁, hs₂⟩ := leads_cons.mp hs
    have haligned := h.next hc₁ hc₂ hs₁ hgrows
    simp only [linesOutside, h.isEmpty_blocks, hc₁, hs₁]
    rw [ih haligned hc₂ hs₂]

end Aligned

/-! ### Whole programs -/

section Program

variable {source : Source} {c : Collector}

/-- Wherever the second pass comes to, it is aligned with what the first pass was there. -/
theorem exists_aligned (hc : (Collector.run source).result = .ok c) {before rest : List NumberedLine} {s : Checker}
    (hsplit : source.lines = before ++ rest)
    (hs : Leads (Checker.step c.functions) { scopes := c.scopes } before s) :
    ∃ c₁, Leads Collector.step {} before c₁ ∧ Leads Collector.step c₁ rest c ∧ Aligned c.scopes.env c₁ s := by
  obtain ⟨hlead, -, -⟩ := Collector.result_run_eq_ok_iff.mp hc
  rw [hsplit] at hlead
  obtain ⟨c₁, hbefore, hrest⟩ := leads_append.mp hlead
  have hflat := (Collector.flat_start.leads hbefore).1
  have hgrows := (hflat.leads hrest).2.env
  have hstart := Aligned.start (Collector.flat_of_run hc)
  exact ⟨c₁, hbefore, hrest, hstart.leads hbefore hs hgrows⟩

/-- The second pass enters the functions that the first one has recorded. -/
theorem exists_records (hc : (Collector.run source).result = .ok c) {s : Checker} {l : NumberedLine}
    {rest : List NumberedLine} {h : Header} (hreaches : Checker.Reaches source c s l rest) (houtside : s.blocks = [])
    (hl : l.Reads (.function h)) :
    c.functions.find? h.name = some ⟨h.name, h.params, l.number⟩ ∧
      ∃ body after, rest = body ++ after ∧ Collector.Records source l h body after := by
  obtain ⟨before, hsplit, hs⟩ := hreaches
  obtain ⟨c₁, hbefore, hrest, haligned⟩ := exists_aligned hc hsplit hs
  obtain ⟨c₂, hc₂, hrest⟩ := leads_cons.mp hrest
  have hskip₁ : c₁.skip = none := haligned.skip_eq_none_iff.mpr houtside
  have hextends := haligned.extends_of_leads hc₂ hrest
  -- the first pass registers the function in this line
  have hregister := hc₂
  rw [Collector.result_step_of_reads hskip₁ hl] at hregister
  obtain ⟨functions, hdeclare, hc₂eq⟩ := Collector.result_register_eq_ok_iff.mp hregister
  have hfound : c₂.functions.find? h.name = some ⟨h.name, h.params, l.number⟩ := by
    rw [hc₂eq, Functions.find?_of_declare hdeclare, if_pos rfl]
  refine ⟨hextends.functions _ _ hfound, ?_⟩
  -- and goes on outside blocks at the latest at the end of the program
  have hend : ¬c.InBlock := not_not_intro (Collector.result_run_eq_ok_iff.mp hc).2.1
  obtain ⟨body, after, c₃, rfl, hbody, hskip₃⟩ := exists_through hrest hend
  exact ⟨body, after, rfl, hl, c₁, c₂, c₃, ⟨before, hsplit, hbefore⟩, hskip₁, hc₂, hbody, not_not.mp hskip₃⟩

/-- Of a function that is recorded the second pass reads the lines that the first one has passed over, and no others. -/
theorem read_of_records (hc : (Collector.run source).result = .ok c) {s s₁ t : Checker} {l : NumberedLine} {h : Header}
    {body after part : List NumberedLine} (hrecords : Collector.Records source l h body after)
    (hreaches : Checker.Reaches source c s l (body ++ after)) (hs₁ : (s.step c.functions l).result = .ok s₁)
    (hpart : part <+: body ++ after) (hthrough : Through (Checker.step c.functions) Checker.InBlock s₁ part t) :
    t.blocks = [] ∧ part = body ∨ t.blocks ≠ [] ∧ ∃ next more, body = part ++ next :: more := by
  obtain ⟨-, c₁, c₂, c₃, ⟨before, hsplit, hbefore⟩, -, hc₂, hbody, hskip₃⟩ := hrecords
  obtain ⟨before', hsplit', hs⟩ := hreaches
  obtain rfl := List.append_cancel_right (hsplit.symm.trans hsplit')
  obtain ⟨c₁', hbefore', hrest, haligned⟩ := exists_aligned hc hsplit hs
  obtain rfl := hbefore.unique hbefore'
  obtain ⟨c₂', hc₂', hrest⟩ := leads_cons.mp hrest
  obtain rfl := Except.ok.inj (hc₂.symm.trans hc₂')
  have hflat₃ := ((haligned.flat.step hc₂).1.leads hbody.leads).1
  have hgrows := (hflat₃.leads (hrest.of_append hbody.leads)).2.env
  exact (haligned.next hc₂ hrest hs₁ (.refl _)).through hbody hskip₃ hgrows hpart hthrough

/-- The passes agree.  Each function that the second pass enters has the header of this line in the table, the lines it
reads inside are its `Collector.Records`, and `Checker.linesOutside` is a start of `Collector.linesOutside`, and all of
it unless the second pass fails. -/
theorem passes_agree (hc : (Collector.run source).result = .ok c) :
    (∀ s l rest h, Checker.Reaches source c s l rest → s.blocks = [] → l.Reads (.function h) →
      c.functions.find? h.name = some ⟨h.name, h.params, l.number⟩ ∧
      (∃ body after, rest = body ++ after ∧ Collector.Records source l h body after) ∧
      ∀ body after, rest = body ++ after → Collector.Records source l h body after →
        ∀ s₁ part t, (s.step c.functions l).result = .ok s₁ → part <+: rest →
          Through (Checker.step c.functions) Checker.InBlock s₁ part t →
            t.blocks = [] ∧ part = body ∨ t.blocks ≠ [] ∧ ∃ next more, body = part ++ next :: more) ∧
    Checker.linesOutside source c <+: Collector.linesOutside source ∧
    (∀ s, (Checker.run source c.functions c.scopes).result = .ok s →
      Checker.linesOutside source c = Collector.linesOutside source) := by
  have hlead := (Collector.result_run_eq_ok_iff.mp hc).1
  have haligned := Aligned.start (Collector.flat_of_run hc)
  refine ⟨fun s l rest h hreaches houtside hl => ?_, haligned.linesOutside_prefix hlead (.refl _), fun s hs => ?_⟩
  · obtain ⟨hfound, hrecorded⟩ := exists_records hc hreaches houtside hl
    refine ⟨hfound, hrecorded, ?_⟩
    rintro body after rfl hrecords s₁ part t hs₁ hpart hthrough
    exact read_of_records hc hrecords hreaches hs₁ hpart hthrough
  · exact haligned.linesOutside_eq hlead (Checker.result_run_eq_ok_iff.mp hs).1 (.refl _)

/-- One function and nothing else. -/
def soleFunction : Source :=
  ⟨"sole", "void f() \x7b\n  return;\n\x7d\n"⟩

theorem passes_agree_sole :
    ∃ c s, (Collector.run soleFunction).result = .ok c ∧
      (Checker.run soleFunction c.functions c.scopes).result = .ok s ∧
      Checker.Reaches soleFunction c { scopes := c.scopes } ⟨1, "void f() \x7b"⟩ [⟨2, "  return;"⟩, ⟨3, "\x7d"⟩] ∧
      c.functions.find? "f" = some ⟨"f", [], 1⟩ ∧
      (∃ body after, [⟨2, "  return;"⟩, ⟨3, "\x7d"⟩] = body ++ after ∧
        Collector.Records soleFunction ⟨1, "void f() \x7b"⟩ ⟨"f", []⟩ body after) ∧
      Checker.linesOutside soleFunction c = Collector.linesOutside soleFunction := by
  have hrun : ((Collector.run soleFunction).result.toOption.any fun c =>
      (Checker.run soleFunction c.functions c.scopes).result.toOption.isSome) = true := by decide +kernel
  cases hc : (Collector.run soleFunction).result with
  | error stop => rw [hc] at hrun; cases hrun
  | ok c =>
    rw [hc] at hrun
    cases hs : (Checker.run soleFunction c.functions c.scopes).result with
    | error stop => simp [Except.toOption, hs] at hrun
    | ok s =>
      have hlines : soleFunction.lines = [⟨1, "void f() \x7b"⟩, ⟨2, "  return;"⟩, ⟨3, "\x7d"⟩] := by decide +kernel
      have hheader : NumberedLine.Reads ⟨1, "void f() \x7b"⟩ (.function ⟨"f", []⟩) :=
        NumberedLine.reads_iff.mpr (by decide +kernel)
      have hreaches : Checker.Reaches soleFunction c { scopes := c.scopes } ⟨1, "void f() \x7b"⟩
          [⟨2, "  return;"⟩, ⟨3, "\x7d"⟩] := ⟨[], hlines, leads_nil.mpr rfl⟩
      obtain ⟨hentered, -, hall⟩ := passes_agree hc
      obtain ⟨hfound, hrecorded, -⟩ := hentered _ _ _ _ hreaches rfl hheader
      exact ⟨c, s, rfl, hs, hreaches, hfound, hrecorded, hall s hs⟩

end Program

end LineCheck
