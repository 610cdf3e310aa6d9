import LineCheck.Proofs.Program.Rules

/-!
# LineCheck.Proofs.Program.Check — the second pass over a program

The second pass goes through the lines of a body exactly if the body is legal, and has the environment that the body
leads to (`legal_of_leads_body`, `exists_leads_body`).  Outside functions it makes the assignments once more in the
environment that they have led to, so it starts every function from there.
-/

namespace LineCheck

open Traced

theorem Scopes.env_openBlock {s : Scopes} (h : s.stack ≠ []) : s.openBlock.env = s.env.openScope := by
  rw [env, layers_openBlock h, Layers.map_openScope, env]

theorem Scopes.env_closeInnermost {s : Scopes} (h : 1 < s.stack.length) :
    s.closeInnermost.env = s.env.closeScope := by
  rw [env, layers_closeInnermost h, Layers.map_closeScope, env]

/-- The closing brace of a block makes its last line no `return`, as its condition did. -/
theorem OpenBlock.after_closeBrace_foldl (b : OpenBlock) (statements : List Statement) (w : GuardWord) (c : Condition) :
    (statements.foldl after (b.after (.guard w c))).after .closeBrace = b.after (.guard w c) := by
  have hopener := opener_foldl_after (b.after (.guard w c)) statements
  generalize statements.foldl after (b.after (.guard w c)) = b' at hopener ⊢
  obtain ⟨opener, returns⟩ := b'
  cases hopener
  rfl

namespace Checker

variable {functions : Functions} {headers : List Header} {s s' : Checker} {l : NumberedLine} {ls : List NumberedLine}
  {b : OpenBlock} {outer : List OpenBlock}

theorem Lockstep.env_leave (h : s.Lockstep) (hinside : s.blocks = b :: outer) (hguard : b.opener = .guard) :
    (b.leave s.scopes).env = s.scopes.env.closeScope := by
  obtain ⟨-, hlength⟩ := h.nested (by simp [hinside])
  rw [hinside, List.length_cons] at hlength
  simp only [OpenBlock.leave, hguard]
  exact Scopes.env_closeInnermost (by omega)

/-! ### Bodies -/

/-- Where the second pass goes through the lines of a body, the body is legal. -/
theorem legal_of_leads_body {body : Body} (hknows : functions.KnowsJust headers)
    (hreads : List.Forall₂ NumberedLine.Reads ls body.statements) (h : s.Lockstep) (hinside : s.blocks = b :: outer)
    (hlead : Leads (step functions) s ls s') :
    body.Legal headers s.scopes.env s'.scopes.env ∧ s'.blocks = body.statements.foldl OpenBlock.after b :: outer ∧
      s'.scopes.globals = s.scopes.globals := by
  induction body generalizing ls s s' b outer with
  | nil =>
    cases hreads
    obtain rfl := leads_nil.mp hlead
    exact ⟨.nil, hinside, rfl⟩
  | plain line rest ih =>
    obtain ⟨l, ls, hl, hrest, rfl⟩ := List.forall₂_cons_right_iff.mp hreads
    obtain ⟨s₁, hstep, hlead⟩ := leads_cons.mp hlead
    have hlock := h.step hstep
    have hglobals := h.globals hstep hinside
    obtain ⟨scopes, hperforms, rfl⟩ := (result_step_line_iff functions hinside hl line.braces_statement).mp hstep
    obtain ⟨hlegal, hblocks, hglobals'⟩ := ih hrest hlock rfl hlead
    exact ⟨.plain (PlainLine.legal_of_performs hperforms) hlegal, hblocks, hglobals'.trans hglobals⟩
  | call call rest ih =>
    obtain ⟨l, ls, hl, hrest, rfl⟩ := List.forall₂_cons_right_iff.mp hreads
    obtain ⟨s₁, hstep, hlead⟩ := leads_cons.mp hlead
    have hlock := h.step hstep
    obtain ⟨scopes, hperforms, rfl⟩ := (result_step_line_iff functions hinside hl rfl).mp hstep
    obtain ⟨hlegal, hblocks, hglobals⟩ := ih hrest hlock rfl hlead
    cases hperforms with
    | call hcheck => exact ⟨.call ((Call.check_eq_ok_iff hknows).mp hcheck) hlegal, hblocks, hglobals⟩
  | «return» rest ih =>
    obtain ⟨l, ls, hl, hrest, rfl⟩ := List.forall₂_cons_right_iff.mp hreads
    obtain ⟨s₁, hstep, hlead⟩ := leads_cons.mp hlead
    have hlock := h.step hstep
    obtain ⟨scopes, hperforms, rfl⟩ := (result_step_line_iff functions hinside hl rfl).mp hstep
    obtain ⟨hlegal, hblocks, hglobals⟩ := ih hrest hlock rfl hlead
    cases hperforms with
    | «return» => exact ⟨.return hlegal, hblocks, hglobals⟩
  | guard w c inner rest ihinner ihrest =>
    obtain ⟨l, ls, hl, hblock, rfl⟩ := List.forall₂_cons_right_iff.mp hreads
    obtain ⟨ls₁, ls₂, rfl, hinner, hmore⟩ := exists_append_of_reads hblock
    obtain ⟨l', ls₂, hl', hrest, rfl⟩ := List.forall₂_cons_right_iff.mp hmore
    obtain ⟨s₁, hopen, hlead⟩ := leads_cons.mp hlead
    obtain ⟨s₂, hlead₁, hlead⟩ := leads_append.mp hlead
    obtain ⟨s₃, hclose, hlead₂⟩ := leads_cons.mp hlead
    have hlock₁ := h.step hopen
    have hlock₂ := hlock₁.leads hlead₁
    have hlock₃ := hlock₂.step hclose
    obtain ⟨hcheck, rfl⟩ := (result_step_guard_iff functions hinside hl).mp hopen
    obtain ⟨hinner, hblocks₂, hglobals₂⟩ := ihinner hinner hlock₁ rfl hlead₁
    have hglobals₃ := hlock₂.globals hclose hblocks₂
    obtain ⟨depth, -, -, rfl⟩ := (result_step_close_iff functions hblocks₂ hl').mp hclose
    obtain ⟨hrest, hblocks, hglobals⟩ := ihrest hrest hlock₃ rfl hlead₂
    -- the block has been left by now, and its scope with it
    rw [hlock₂.env_leave hblocks₂ (OpenBlock.opener_foldl_after _ _)] at hrest
    rw [Scopes.env_openBlock (h.stack_ne_nil (by simp [hinside]))] at hinner
    refine ⟨.guard (Condition.check_eq_ok_iff.mp hcheck) hinner hrest, ?_, ?_⟩
    · rw [hblocks, Body.statements, List.foldl_cons, List.foldl_append, List.foldl_cons,
        OpenBlock.after_closeBrace_foldl]
    · exact hglobals.trans (hglobals₃.trans hglobals₂)

/-- Where a body is legal, the second pass goes through its lines. -/
theorem exists_leads_body {body : Body} {env env' : Env} (hlegal : body.Legal headers env env')
    (hknows : functions.KnowsJust headers) (hreads : List.Forall₂ NumberedLine.Reads ls body.statements)
    (h : s.Lockstep) (hinside : s.blocks = b :: outer) (henv : s.scopes.env = env) :
    ∃ s', Leads (step functions) s ls s' ∧ s'.scopes.env = env' := by
  induction hlegal generalizing ls s b outer with
  | nil =>
    cases hreads
    exact ⟨s, leads_nil.mpr rfl, henv⟩
  | @plain _ _ _ line rest first more ih =>
    subst henv
    obtain ⟨l, ls, hl, hrest, rfl⟩ := List.forall₂_cons_right_iff.mp hreads
    obtain ⟨scopes, hperforms, henv⟩ := PlainLine.exists_performs functions l.number first
    have hstep := (result_step_line_iff functions hinside hl line.braces_statement).mpr ⟨scopes, hperforms, rfl⟩
    obtain ⟨s', hlead, henv'⟩ := ih hrest (h.step hstep) rfl henv
    exact ⟨s', leads_cons.mpr ⟨_, hstep, hlead⟩, henv'⟩
  | call first more ih =>
    subst henv
    obtain ⟨l, ls, hl, hrest, rfl⟩ := List.forall₂_cons_right_iff.mp hreads
    have hcheck := (Call.check_eq_ok_iff hknows).mpr first
    have hstep := (result_step_line_iff functions hinside hl rfl).mpr ⟨s.scopes, .call hcheck, rfl⟩
    obtain ⟨s', hlead, henv'⟩ := ih hrest (h.step hstep) rfl rfl
    exact ⟨s', leads_cons.mpr ⟨_, hstep, hlead⟩, henv'⟩
  | «return» more ih =>
    subst henv
    obtain ⟨l, ls, hl, hrest, rfl⟩ := List.forall₂_cons_right_iff.mp hreads
    have hstep := (result_step_line_iff functions hinside hl rfl).mpr ⟨s.scopes, .return, rfl⟩
    obtain ⟨s', hlead, henv'⟩ := ih hrest (h.step hstep) rfl rfl
    exact ⟨s', leads_cons.mpr ⟨_, hstep, hlead⟩, henv'⟩
  | @guard _ _ _ w c inner rest first block more ihinner ihrest =>
    subst henv
    obtain ⟨l, ls, hl, hblock, rfl⟩ := List.forall₂_cons_right_iff.mp hreads
    obtain ⟨ls₁, ls₂, rfl, hinner, hmore⟩ := exists_append_of_reads hblock
    obtain ⟨l', ls₂, hl', hrest, rfl⟩ := List.forall₂_cons_right_iff.mp hmore
    have hopen := (result_step_guard_iff functions hinside hl).mpr
      ⟨Condition.check_eq_ok_iff.mpr first, rfl⟩
    have hlock₁ := h.step hopen
    obtain ⟨s₂, hlead₁, henv₂⟩ := ihinner hinner hlock₁ rfl (Scopes.env_openBlock (h.stack_ne_nil (by simp [hinside])))
    have hlock₂ := hlock₁.leads hlead₁
    obtain ⟨-, hblocks₂, -⟩ := legal_of_leads_body hknows hinner hlock₁ rfl hlead₁
    have hopener := OpenBlock.opener_foldl_after ⟨.guard, false⟩ inner.statements
    -- the block is closed by its own brace, which nothing more is asked of
    have hdepth : s₂.depth = s.depth + 1 := by
      rw [hlock₂.depth, hblocks₂, h.depth, hinside]
      rfl
    have hclose := (result_step_close_iff functions hblocks₂ hl').mpr
      ⟨s.depth, hdepth, fun hfunction => absurd (hopener.symm.trans hfunction) (by decide), rfl⟩
    have henv₃ := (hlock₂.env_leave hblocks₂ hopener).trans (congrArg Layers.closeScope henv₂)
    obtain ⟨s', hlead₂, henv'⟩ := ihrest hrest (hlock₂.step hclose) rfl henv₃
    have hbehind := leads_cons.mpr ⟨_, hclose, hlead₂⟩
    have hguard := leads_append.mpr ⟨_, hlead₁, hbehind⟩
    exact ⟨s', leads_cons.mpr ⟨_, hopen, hguard⟩, henv'⟩

/-! ### Functions -/

/-- Where the second pass goes through the lines of a function, the function is legal; the globals are left alone. -/
theorem legal_of_leads_function {f : Function} (hknows : functions.KnowsJust headers)
    (hreads : List.Forall₂ NumberedLine.Reads ls f.statements) (h : s.Lockstep) (houtside : s.blocks = [])
    (hlead : Leads (step functions) s ls s') :
    f.Legal headers s.scopes.env ∧ s'.blocks = [] ∧ s'.scopes.env = s.scopes.env := by
  obtain ⟨l, ls, hl, hlines, rfl⟩ := List.forall₂_cons_right_iff.mp hreads
  obtain ⟨ls₁, ls₂, rfl, hbody, hmore⟩ := exists_append_of_reads hlines
  obtain ⟨l', ls₂, hl', hnil, rfl⟩ := List.forall₂_cons_right_iff.mp hmore
  cases hnil
  obtain ⟨s₁, henter, hlead⟩ := leads_cons.mp hlead
  obtain ⟨s₂, hlead, hclose⟩ := leads_concat.mp hlead
  have hlock₁ := h.step henter
  have hlock₂ := hlock₁.leads hlead
  have hlock' := hlock₂.step hclose
  obtain ⟨scopes, hparams, rfl⟩ := (result_step_function_iff functions houtside hl).mp henter
  obtain ⟨hnodup, -, henv₁, hkeeps⟩ := of_declareParam hparams
  obtain ⟨hlegal, hblocks₂, hglobals₂⟩ := legal_of_leads_body hknows hbody hlock₁ rfl hlead
  have hglobals' := hlock₂.globals hclose hblocks₂
  obtain ⟨depth, -, hended, rfl⟩ := (result_step_close_iff functions hblocks₂ hl').mp hclose
  have hstack := h.stack_eq_nil houtside
  have hglobals : s.scopes.globalEnv = s.scopes.env := (Scopes.env_of_stack_eq_nil hstack).symm
  refine ⟨⟨hnodup, ?_, s₂.scopes.env, ?_⟩, rfl, ?_⟩
  · exact f.body.endsInReturn_iff.mpr (hended (OpenBlock.opener_foldl_after _ _))
  · rw [← hglobals, ← Scopes.env_openFunction, ← henv₁]
    exact hlegal
  · have hkept := hkeeps.globals (by simp [Scopes.openFunction])
    rw [Scopes.env_of_stack_eq_nil (hlock'.stack_eq_nil rfl), ← hglobals]
    exact Scopes.globalEnv_congr (hglobals'.trans (hglobals₂.trans hkept))

/-- Where a function is legal, the second pass goes through its lines. -/
theorem exists_leads_function {f : Function} (hlegal : f.Legal headers s.scopes.env)
    (hknows : functions.KnowsJust headers) (hreads : List.Forall₂ NumberedLine.Reads ls f.statements) (h : s.Lockstep)
    (houtside : s.blocks = []) : ∃ s', Leads (step functions) s ls s' := by
  obtain ⟨l, ls, hl, hlines, rfl⟩ := List.forall₂_cons_right_iff.mp hreads
  obtain ⟨ls₁, ls₂, rfl, hbody, hmore⟩ := exists_append_of_reads hlines
  obtain ⟨l', ls₂, hl', hnil, rfl⟩ := List.forall₂_cons_right_iff.mp hmore
  cases hnil
  obtain ⟨hnodup, hreturns, env', hlegal⟩ := hlegal
  obtain ⟨scopes, hparams⟩ := exists_leads_declareParam l.number (s := s.scopes.openFunction) hnodup
    fun p _ => rfl
  have henter := (result_step_function_iff functions houtside hl).mpr ⟨scopes, hparams, rfl⟩
  have hlock₁ := h.step henter
  have henv₁ : scopes.env = Env.withParams s.scopes.env.openScope f.header.params := by
    rw [(of_declareParam hparams).2.2.1, Scopes.env_openFunction, Scopes.env_of_stack_eq_nil (h.stack_eq_nil houtside)]
  obtain ⟨s₂, hlead, -⟩ := exists_leads_body hlegal hknows hbody hlock₁ rfl henv₁
  obtain ⟨-, hblocks₂, -⟩ := legal_of_leads_body hknows hbody hlock₁ rfl hlead
  have hdepth : s₂.depth = 0 + 1 := by
    rw [(hlock₁.leads hlead).depth, hblocks₂]
    rfl
  have hclose := (result_step_close_iff functions hblocks₂ hl').mpr
    ⟨0, hdepth, fun _ => f.body.endsInReturn_iff.mp hreturns, rfl⟩
  have hinside := leads_concat.mpr ⟨_, hlead, hclose⟩
  exact ⟨_, leads_cons.mpr ⟨_, henter, hinside⟩⟩

/-! ### Programs -/

/-- A line outside functions that has led to `env'` is legal still in an environment grown out of that, and does nothing
there. -/
theorem exists_replay {line : PlainLine} {env env' top : Env} (functions : Functions) (hlegal : line.Legal env env')
    (hgrows : env'.Grows top) (houtside : s.blocks = []) (hl : l.Reads line.statement) (htop : s.scopes.env = top) :
    ∃ s', (step functions s l).result = .ok s' ∧ s'.blocks = [] ∧ s'.scopes.env = top := by
  cases hlegal with
  | blank => exact ⟨_, (result_step_outside_iff houtside).mpr (.idle hl (.inl rfl)), houtside, htop⟩
  | comment => exact ⟨_, (result_step_outside_iff houtside).mpr (.idle hl (.inl rfl)), houtside, htop⟩
  | declaration _ => exact ⟨_, (result_step_outside_iff houtside).mpr (.idle hl (.inr ⟨_, rfl⟩)), houtside, htop⟩
  | assignment assigns =>
    subst htop
    obtain ⟨scopes, hrun, henv⟩ := exists_performAll l.number (assigns.replay hgrows)
    exact ⟨_, (result_step_outside_iff houtside).mpr (.replay hl hrun), houtside, henv⟩

/-- Where the second pass goes through a program with legal globals, starting from what they have led to, the functions
are legal. -/
theorem legal_of_leads_items {items : List Item} {env env' : Env} (hglobals : Globals env items env')
    (houter : env.outer = []) (hknows : functions.KnowsJust headers)
    (hreads : List.Forall₂ NumberedLine.Reads ls (items.flatMap Item.statements)) (h : s.Lockstep)
    (houtside : s.blocks = []) (htop : s.scopes.env = env') (hlead : Leads (step functions) s ls s') :
    ∀ f ∈ items.filterMap Item.function?, f.Legal headers env' := by
  induction hglobals generalizing ls s with
  | nil => exact fun f hf => absurd hf List.not_mem_nil
  | plain first more ih =>
    obtain ⟨l, ls, hl, hrest, rfl⟩ := List.forall₂_cons_right_iff.mp hreads
    obtain ⟨s₁, hstep, hlead⟩ := leads_cons.mp hlead
    have houter₁ := first.outer_eq_nil houter
    obtain ⟨s₁', hstep', houtside₁, htop₁⟩ :=
      exists_replay functions first (more.grows houter₁) houtside hl htop
    obtain rfl := Except.ok.inj (hstep.symm.trans hstep')
    exact ih houter₁ hrest (h.step hstep) houtside₁ htop₁ hlead
  | function _ ih =>
    obtain ⟨ls₁, ls₂, rfl, hitem, hrest⟩ := exists_append_of_reads hreads
    obtain ⟨s₁, hlead₁, hlead₂⟩ := leads_append.mp hlead
    obtain ⟨hlegal, houtside₁, henv₁⟩ := legal_of_leads_function hknows hitem h houtside hlead₁
    have hmore := ih houter hrest (h.leads hlead₁) houtside₁ (henv₁.trans htop) hlead₂
    intro f hf
    rcases List.mem_cons.mp hf with rfl | hf
    · exact htop ▸ hlegal
    · exact hmore f hf

/-- Where the functions are legal with the globals that the program ends with, the second pass goes through. -/
theorem exists_leads_items {items : List Item} {env env' : Env} (hglobals : Globals env items env')
    (houter : env.outer = []) (hlegal : ∀ f ∈ items.filterMap Item.function?, f.Legal headers env')
    (hknows : functions.KnowsJust headers)
    (hreads : List.Forall₂ NumberedLine.Reads ls (items.flatMap Item.statements)) (h : s.Lockstep)
    (houtside : s.blocks = []) (htop : s.scopes.env = env') :
    ∃ s', Leads (step functions) s ls s' ∧ s'.blocks = [] := by
  induction hglobals generalizing ls s with
  | nil =>
    cases hreads
    exact ⟨s, leads_nil.mpr rfl, houtside⟩
  | plain first more ih =>
    obtain ⟨l, ls, hl, hrest, rfl⟩ := List.forall₂_cons_right_iff.mp hreads
    have houter₁ := first.outer_eq_nil houter
    obtain ⟨s₁, hstep, houtside₁, htop₁⟩ := exists_replay functions first (more.grows houter₁) houtside hl htop
    obtain ⟨s', hlead, hend⟩ :=
      ih houter₁ hlegal hrest (h.step hstep) houtside₁ htop₁
    exact ⟨s', leads_cons.mpr ⟨s₁, hstep, hlead⟩, hend⟩
  | @function _ _ f items _ ih =>
    obtain ⟨ls₁, ls₂, rfl, hitem, hrest⟩ := exists_append_of_reads hreads
    have hf : f.Legal headers s.scopes.env := htop ▸ hlegal f List.mem_cons_self
    obtain ⟨s₁, hlead₁⟩ := exists_leads_function hf hknows hitem h houtside
    obtain ⟨-, houtside₁, henv₁⟩ := legal_of_leads_function hknows hitem h houtside hlead₁
    have hrest_legal : ∀ g ∈ items.filterMap Item.function?, g.Legal headers _ := fun g hg =>
      hlegal g (List.mem_cons_of_mem f hg)
    obtain ⟨s', hlead₂, hend⟩ := ih houter hrest_legal hrest (h.leads hlead₁) houtside₁ (henv₁.trans htop)
    exact ⟨s', leads_append.mpr ⟨s₁, hlead₁, hlead₂⟩, hend⟩

end Checker

end LineCheck
