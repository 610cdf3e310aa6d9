import LineCheck.Proofs.Pass.Step
import LineCheck.Proofs.Symbol.Alike

/-!
# LineCheck.Proofs.Pass.Mirror — two programs that are checked in the same way

The lines of one program mirror those of another one if they are the same statements under new names, perhaps with
other literals, and if nothing stands between them that says anything (`Mirrors`).  The number of a line may be another
one, if it is a function of the old one.  Between two lines that correspond, the states of a pass over both programs are
then alike but for the line that was read last; a line that corresponds keeps it so or ends both passes for the same
reason (`Collector.Alike.step`, `Checker.Alike.step`), and a line that says nothing leaves one state as it is
(`Collector.Alike.silent`, `Checker.Alike.silent`).  So both passes go through both programs alike (`RunAlike`), and the
programs get the same verdict, up to the number of the line (`Source.verdict_of_mirrors`).
-/

namespace LineCheck

open Traced Text

variable (r : Renaming) (f : Nat → Nat)

/-- The line is the same statement under new names, or no statement either, with the same braces. -/
structure NumberedLine.Mirrors (l l' : NumberedLine) : Prop where
  number : l'.number = f l.number
  braces : netBraces l'.text = netBraces l.text
  statement : Option.Rel (Statement.Alike r) l.statement? l'.statement?

/-- The second list has a line for each line of the first one, and may have blank lines and comments between them. -/
inductive Mirrors : List NumberedLine → List NumberedLine → Prop where
  | nil : Mirrors [] []
  | cons {l l' : NumberedLine} {ls ls' : List NumberedLine} (line : l.Mirrors r f l') (more : Mirrors ls ls') :
      Mirrors (l :: ls) (l' :: ls')
  | insert {l : NumberedLine} {statement : Statement} {ls ls' : List NumberedLine} (reads : l.Reads statement)
      (silent : statement.isSilent = true) (more : Mirrors ls ls') : Mirrors ls (l :: ls')

variable {r f}

theorem NumberedLine.Mirrors.of_reads {l l' : NumberedLine} {statement statement' : Statement}
    (hnumber : l'.number = f l.number) (hl : l.Reads statement) (hl' : l'.Reads statement')
    (halike : statement.Alike r statement') : l.Mirrors r f l' where
  number := hnumber
  braces := by rw [hl.netBraces_eq, hl'.netBraces_eq, halike.braces_eq]
  statement := by
    rw [NumberedLine.reads_iff.mp hl, NumberedLine.reads_iff.mp hl']
    exact .some halike

/-- Lines that correspond are read alike. -/
theorem NumberedLine.Mirrors.readLine {l l' : NumberedLine} (h : l.Mirrors r f l') {σ τ : Type} (s : σ) (t : τ) :
    Agree (Stop.Renumbered f) (fun line line' => line.statement.Alike r line'.statement)
      (Traced.readLine l.number l.text s).result (Traced.readLine l'.number l'.text t).result := by
  have hstatement := h.statement
  rw [NumberedLine.statement?, NumberedLine.statement?] at hstatement
  rw [Traced.readLine, Traced.readLine]
  generalize Line.ofText l.number l.text = x at hstatement ⊢
  generalize Line.ofText l'.number l'.text = y at hstatement ⊢
  cases x with
  | ok line =>
    cases y with
    | ok line' =>
      cases hstatement with
      | some halike => exact .ok halike
    | error e => cases hstatement
  | error e =>
    cases y with
    | ok line' => cases hstatement
    | error e' => exact Agree.stopAt h.number .invalidSyntax

/-- Loops over lines: what two lines that correspond keep and a line that says nothing does not disturb. -/
theorem Mirrors.foldlM {σ τ : Type} {R : σ → τ → Prop} {step : σ → NumberedLine → Traced (Stop σ) σ}
    {step' : τ → NumberedLine → Traced (Stop τ) τ}
    (hstep : ∀ s t l l', R s t → l.Mirrors r f l' → Agree (Stop.Renumbered f) R (step s l).result (step' t l').result)
    (hsilent : ∀ s t l statement, R s t → l.Reads statement → statement.isSilent = true →
      ∃ t', (step' t l).result = .ok t' ∧ R s t')
    {ls ls' : List NumberedLine} (h : Mirrors r f ls ls') {s : σ} {t : τ} (hst : R s t) :
    Agree (Stop.Renumbered f) R (ls.foldlM step s).result (ls'.foldlM step' t).result := by
  induction h generalizing s t with
  | nil => exact .ok hst
  | cons hline _ ih =>
    rw [List.foldlM_cons, List.foldlM_cons]
    exact (hstep s t _ _ hst hline).bind fun _ _ => ih
  | insert hreads hquiet _ ih =>
    obtain ⟨t', hstep', hst'⟩ := hsilent s t _ _ hst hreads hquiet
    rw [List.foldlM_cons, result_bind, hstep']
    exact ih hst'

/-! ### Lines that declare variables or give them values -/

section Binding

variable {s t : Scopes} {number number' : Nat}

theorem Declaration.Alike.perform {d e : Declaration} (h : d.Alike r e) (hnumber : number' = f number)
    (hst : s.Alike r t) :
    Agree (Stop.Renumbered f) (Scopes.Alike r) (d.perform number s).result (e.perform number' t).result := by
  refine Agree.foldlM h.declarators (fun s t v w hst hvw => ?_) hst
  rw [Declaration.performOne, Declaration.performOne, h.isFinal, h.ty]
  refine (Agree.proceed hnumber (hvw.declareIn hst d.isFinal d.ty)).bind fun s' t' hst' => ?_
  rw [result_emit_bind, result_emit_bind]
  exact .ok hst'

theorem performAll_of_alike {as bs : List Assignment} (h : List.Forall₂ (Assignment.Alike r) as bs)
    (hnumber : number' = f number) (hst : s.Alike r t) :
    Agree (Stop.Renumbered f) (Scopes.Alike r) (performAll as number s).result (performAll bs number' t).result :=
  Agree.foldlM h (fun _ _ _ _ hst hab => Agree.proceed hnumber (hab.applyTo hst)) hst

theorem Header.Alike.declareParams {h i : Header} (hhi : h.Alike r i) (hnumber : number' = f number)
    (hst : s.Alike r t) :
    Agree (Stop.Renumbered f) (Scopes.Alike r) (h.declareParams number s).result (i.declareParams number' t).result :=
  Agree.foldlM hhi.params (fun _ _ _ _ hst hpq => Agree.proceed hnumber (hpq.declareIn hst)) hst

end Binding

/-! ### The first pass -/

theorem Collector.perform_of_isSilent {a : Statement} (ha : a.isSilent = true) (s : Collector) :
    s.perform a = pure s := by
  obtain rfl | rfl := Statement.eq_of_isSilent ha
  · rfl
  · rfl

/-- Both pass over a block in which equally many braces are open, and one at least, so that a line without braces does
not end it. -/
structure Skip.Alike (k k' : Skip) : Prop where
  balance : k'.balance = k.balance
  opened : 0 < k.balance

variable (r) in
/-- The states of the first pass are alike, but for numbers of lines. -/
structure Collector.Alike (s t : Collector) : Prop where
  scopes : s.scopes.Alike r t.scopes
  functions : s.functions.Alike r t.functions
  depth : t.depth = s.depth
  skip : Option.Rel Skip.Alike s.skip t.skip

namespace Collector.Alike

variable {s t : Collector} {l l' : NumberedLine}

theorem atLine (h : s.Alike r t) (number number' : Nat) :
    Collector.Alike r { s with line := number } { t with line := number' } :=
  ⟨h.scopes, h.functions, h.depth, h.skip⟩

theorem withScopes (h : s.Alike r t) {x y : Traced (Stop Scopes) Scopes}
    (hxy : Agree (Stop.Renumbered f) (Scopes.Alike r) x.result y.result) :
    Agree (Stop.Renumbered f) (Collector.Alike r) (s.withScopes x).result (t.withScopes y).result := by
  refine Agree.map (hxy.mapError fun stop stop' hstop => ?_) fun scopes scopes' hscopes => ?_
  · exact hstop
  · exact ⟨hscopes, h.functions, h.depth, h.skip⟩

theorem beginSkip (h : s.Alike r t) : s.beginSkip.Alike r t.beginSkip :=
  ⟨h.scopes, h.functions, h.depth, .some ⟨rfl, Int.one_pos⟩⟩

theorem register (h : s.Alike r t) (hline : t.line = f s.line) {hd hd' : Header} (hheader : hd.Alike r hd') :
    Agree (Stop.Renumbered f) (Collector.Alike r) (s.register hd).result (t.register hd').result := by
  have hsignature : Signature.Alike r ⟨hd.name, hd.params, s.line⟩ ⟨hd'.name, hd'.params, t.line⟩ :=
    ⟨hheader.name, hheader.params⟩
  rw [Collector.register, Collector.register]
  refine (Agree.require hline (h.functions.declare hsignature)).bind fun functions functions' hfunctions => ?_
  exact .ok ⟨h.scopes, hfunctions, h.depth, .some ⟨rfl, Int.one_pos⟩⟩

theorem closeBlock (h : s.Alike r t) :
    Agree (Stop.Renumbered f) (Collector.Alike r) s.closeBlock.result t.closeBlock.result := by
  rw [Collector.closeBlock, Collector.closeBlock, h.depth]
  cases s.depth with
  | zero => exact Agree.stop rfl
  | succ depth => exact .ok ⟨h.scopes, h.functions, rfl, h.skip⟩

theorem perform (h : s.Alike r t) (hline : t.line = f s.line) {a b : Statement} (hab : a.Alike r b) :
    Agree (Stop.Renumbered f) (Collector.Alike r) (s.perform a).result (t.perform b).result := by
  cases hab with
  | silent left right =>
    rw [perform_of_isSilent left, perform_of_isSilent right]
    exact .ok h
  | declaration halike => exact h.withScopes (halike.perform hline h.scopes)
  | assignment halike => exact h.withScopes (performAll_of_alike halike hline h.scopes)
  | function halike => exact h.register hline halike
  | call halike => exact .ok h
  | guard word halike => exact .ok h.beginSkip
  | «return» => exact .ok h
  | closeBrace => exact h.closeBlock

theorem passOver (h : s.Alike r t) {k k' : Skip} (hk : k'.balance = k.balance) {text text' : String}
    (htext : netBraces text' = netBraces text) :
    Agree (Stop.Renumbered f) (Collector.Alike r) (s.passOver k text).result (t.passOver k' text').result := by
  rw [Collector.passOver, Collector.passOver, hk, htext]
  split
  · next hopened => exact .ok ⟨h.scopes, h.functions, h.depth, .some ⟨rfl, hopened⟩⟩
  · exact .ok ⟨h.scopes, h.functions, h.depth, .none⟩

/-- One line that corresponds. -/
theorem step (h : s.Alike r t) (hl : l.Mirrors r f l') :
    Agree (Stop.Renumbered f) (Collector.Alike r) (s.step l).result (t.step l').result := by
  have hhere := h.atLine l.number l'.number
  obtain ⟨hs, ht⟩ | ⟨k, k', hs, ht, hk⟩ := none_or_some_of_rel h.skip
  · simp only [Collector.step, hs, ht] at hhere ⊢
    exact (hl.readLine _ _).bind fun _ _ halike => hhere.perform hl.number halike
  · rw [result_step_of_skip hs, result_step_of_skip ht]
    exact hhere.passOver hk.balance hl.braces

/-- A line that says nothing. -/
theorem silent (h : s.Alike r t) {a : Statement} (hl : l.Reads a) (ha : a.isSilent = true) :
    ∃ t', (t.step l).result = .ok t' ∧ s.Alike r t' := by
  obtain ⟨hs, ht⟩ | ⟨k, k', hs, ht, hk⟩ := none_or_some_of_rel h.skip
  · exact ⟨_, result_step_eq_ok_iff.mpr (.idle ht hl (.inl ha)), h.atLine s.line l.number⟩
  · -- the braces that are open in the block are as many as before
    have hbraces : netBraces l.text = 0 := hl.netBraces_eq.trans (Statement.braces_of_isSilent ha)
    have hbalance : k'.balance + netBraces l.text = k.balance := by rw [hbraces, Int.add_zero, hk.balance]
    have hopened : 0 < k'.balance + netBraces l.text := hbalance ▸ hk.opened
    refine ⟨_, result_step_eq_ok_iff.mpr (.more ht hopened), h.scopes, h.functions, h.depth, ?_⟩
    rw [hs]
    exact .some ⟨hbalance, hk.opened⟩

theorem finish {E : Rejection → Rejection → Prop} (hE : E .unbalanced .unbalanced) (h : s.Alike r t)
    (name name' : String) :
    Agree (Stop.Related E) (Collector.Alike r) (s.finish name).result (t.finish name').result := by
  rw [Collector.finish, Collector.finish, isSome_of_rel h.skip, h.depth]
  split
  · exact .error hE
  · exact .ok h

end Collector.Alike

/-! ### The second pass -/

theorem OpenBlock.after_of_isSilent {b : OpenBlock} {a : Statement} (ha : a.isSilent = true) : b.after a = b :=
  if_pos ha

theorem OpenBlock.after_of_alike (block : OpenBlock) {a b : Statement} (h : a.Alike r b) :
    block.after b = block.after a := by
  cases h with
  | silent left right => rw [after_of_isSilent left, after_of_isSilent right]
  | _ => rfl

theorem OpenBlock.leave_of_alike (block : OpenBlock) {s t : Scopes} (h : s.Alike r t) :
    (block.leave s).Alike r (block.leave t) := by
  obtain ⟨opener, returns⟩ := block
  cases opener with
  | function => exact h.closeAll
  | guard => exact h.closeInnermost

theorem Checker.performOutside_of_isSilent {a : Statement} (ha : a.isSilent = true) (s : Checker) :
    s.performOutside a = pure s := by
  obtain rfl | rfl := Statement.eq_of_isSilent ha
  · rfl
  · rfl

theorem Checker.performInside_of_isSilent {a : Statement} (ha : a.isSilent = true) (functions : Functions) (s : Checker)
    (b : OpenBlock) (outer : List OpenBlock) :
    s.performInside functions b outer a = pure { s with blocks := b :: outer } := by
  obtain rfl | rfl := Statement.eq_of_isSilent ha
  · rfl
  · rfl

variable (r) in
/-- The states of the second pass are alike, but for numbers of lines. -/
structure Checker.Alike (s t : Checker) : Prop where
  scopes : s.scopes.Alike r t.scopes
  depth : t.depth = s.depth
  blocks : t.blocks = s.blocks

namespace Checker.Alike

variable {s t : Checker} {l l' : NumberedLine} {functions functions' : Functions}

theorem withScopes (h : s.Alike r t) {x y : Traced (Stop Scopes) Scopes}
    (hxy : Agree (Stop.Renumbered f) (Scopes.Alike r) x.result y.result) :
    Agree (Stop.Renumbered f) (Checker.Alike r) (s.withScopes x).result (t.withScopes y).result := by
  refine Agree.map (hxy.mapError fun stop stop' hstop => ?_) fun scopes scopes' hscopes => ?_
  · exact hstop
  · exact ⟨hscopes, h.depth, h.blocks⟩

theorem beginFunction (h : s.Alike r t) (hline : t.line = f s.line) {hd hd' : Header} (hheader : hd.Alike r hd') :
    Agree (Stop.Renumbered f) (Checker.Alike r) (s.beginFunction hd).result (t.beginFunction hd').result := by
  have hopened : Checker.Alike r ({ s with scopes := s.scopes.openFunction }.pushBlock .function)
      ({ t with scopes := t.scopes.openFunction }.pushBlock .function) :=
    ⟨h.scopes.openFunction, h.depth, congrArg (_ :: ·) h.blocks⟩
  rw [Checker.beginFunction, Checker.beginFunction, result_emit_bind, result_emit_bind]
  refine (hopened.withScopes (hheader.declareParams hline h.scopes.openFunction)).bind fun s' t' h' => ?_
  exact .ok ⟨h'.scopes, congrArg (· + 1) h'.depth, h'.blocks⟩

theorem beginGuard (h : s.Alike r t) (hline : t.line = f s.line) {c d : Condition} (hcd : c.Alike r d) :
    Agree (Stop.Renumbered f) (Checker.Alike r) (s.beginGuard c).result (t.beginGuard d).result := by
  rw [Checker.beginGuard, Checker.beginGuard]
  refine (Agree.require hline (hcd.check h.scopes)).bind fun _ _ _ => ?_
  exact .ok ⟨h.scopes.openBlock, congrArg (· + 1) h.depth, congrArg (_ :: ·) h.blocks⟩

/-- The number of the line is needed still, for the block that is left. -/
theorem closeBrace (h : s.Alike r t) :
    Agree (Stop.Renumbered f) (fun s' t' => Checker.Alike r s' t' ∧ s'.line = s.line ∧ t'.line = t.line)
      s.closeBrace.result t.closeBrace.result := by
  rw [Checker.closeBrace, Checker.closeBrace, h.depth]
  cases s.depth with
  | zero => exact Agree.stop rfl
  | succ depth => exact .ok ⟨⟨h.scopes, rfl, h.blocks⟩, rfl, rfl⟩

theorem leaveBlock (h : s.Alike r t) (hline : t.line = f s.line) (b : OpenBlock) (outer : List OpenBlock) :
    Agree (Stop.Renumbered f) (Checker.Alike r) (s.leaveBlock b outer).result (t.leaveBlock b outer).result := by
  rw [Checker.leaveBlock, Checker.leaveBlock]
  split
  · exact Agree.stopAt hline .lastLineNotReturn
  · exact .ok ⟨b.leave_of_alike h.scopes, h.depth, rfl⟩

theorem performOutside (h : s.Alike r t) (hline : t.line = f s.line) {a b : Statement} (hab : a.Alike r b) :
    Agree (Stop.Renumbered f) (Checker.Alike r) (s.performOutside a).result (t.performOutside b).result := by
  cases hab with
  | silent left right =>
    rw [performOutside_of_isSilent left, performOutside_of_isSilent right]
    exact .ok h
  | declaration halike => exact .ok h
  | assignment halike => exact h.withScopes (performAll_of_alike halike hline h.scopes)
  | function halike => exact h.beginFunction hline halike
  | call halike => exact Agree.stopAt hline .invalidActionInGlobalScope
  | guard word halike => exact Agree.stopAt hline .invalidActionInGlobalScope
  | «return» => exact Agree.stopAt hline .invalidActionInGlobalScope
  | closeBrace => exact h.closeBrace.mono fun _ _ h' => h'.1

theorem performInside (h : s.Alike r t) (hline : t.line = f s.line) (hfunctions : functions.Alike r functions')
    (block : OpenBlock) (outer : List OpenBlock) {a b : Statement} (hab : a.Alike r b) :
    Agree (Stop.Renumbered f) (Checker.Alike r) (s.performInside functions block outer a).result
      (t.performInside functions' block outer b).result := by
  -- for the block a line counts as what its statement is, whatever its names and literals are
  have hblock := block.after_of_alike hab
  have hhere : Checker.Alike r { s with blocks := block.after a :: outer }
      { t with blocks := block.after b :: outer } :=
    ⟨h.scopes, h.depth, congrArg (· :: outer) hblock⟩
  cases hab with
  | silent left right =>
    rw [performInside_of_isSilent left, performInside_of_isSilent right]
    exact .ok ⟨h.scopes, h.depth, rfl⟩
  | declaration halike => exact hhere.withScopes (halike.perform hline h.scopes)
  | assignment halike => exact hhere.withScopes (performAll_of_alike halike hline h.scopes)
  | function halike => exact Agree.stopAt hline .invalidScopeFunctionDeclaration
  | call halike => exact (Agree.require hline (halike.check hfunctions h.scopes)).bind fun _ _ _ => .ok hhere
  | guard word halike => exact hhere.beginGuard hline halike
  | «return» => exact .ok hhere
  | closeBrace =>
    refine h.closeBrace.bind fun s' t' h' => ?_
    obtain ⟨halike, hs, ht⟩ := h'
    exact halike.leaveBlock (by rw [hs, ht, hline]) block outer

/-- One line that corresponds. -/
theorem step (hfunctions : functions.Alike r functions') (h : s.Alike r t) (hl : l.Mirrors r f l') :
    Agree (Stop.Renumbered f) (Checker.Alike r) (s.step functions l).result (t.step functions' l').result := by
  have hhere : Checker.Alike r { s with line := l.number } { t with line := l'.number } :=
    ⟨h.scopes, h.depth, h.blocks⟩
  have hblocks := h.blocks
  rw [Checker.step, Checker.step]
  refine (hl.readLine _ _).bind fun line line' halike => ?_
  cases hs : s.blocks with
  | nil =>
    rw [hs] at hblocks
    simp only [dispatch, hs, hblocks] at hhere ⊢
    exact hhere.performOutside hl.number halike
  | cons block outer =>
    rw [hs] at hblocks
    simp only [dispatch, hs, hblocks] at hhere ⊢
    exact hhere.performInside hl.number hfunctions block outer halike

/-- A line that says nothing. -/
theorem silent (h : s.Alike r t) {a : Statement} (hl : l.Reads a) (ha : a.isSilent = true) :
    ∃ t', (t.step functions l).result = .ok t' ∧ s.Alike r t' := by
  cases ht : t.blocks with
  | nil =>
    rw [result_step_of_outside ht hl, performOutside_of_isSilent ha]
    exact ⟨_, rfl, h.scopes, h.depth, h.blocks⟩
  | cons block outer =>
    rw [result_step_of_inside ht hl, performInside_of_isSilent ha]
    exact ⟨_, rfl, h.scopes, h.depth, ht.symm.trans h.blocks⟩

theorem finish {E : Rejection → Rejection → Prop} (hE : E .unbalanced .unbalanced) (h : s.Alike r t)
    (name name' : String) :
    Agree (Stop.Related E) (Checker.Alike r) (s.finish name).result (t.finish name').result := by
  rw [Checker.finish, Checker.finish, h.blocks, h.depth]
  split
  · exact .error hE
  · exact .ok h

end Checker.Alike

/-! ### Both passes -/

variable (r) in
/-- From states that are alike both passes go through the first lines as they go through the second ones: to states
that are alike again, or to rejections that are related. -/
structure RunAlike (E : Rejection → Rejection → Prop) (ls ls' : List NumberedLine) : Prop where
  collect {s t : Collector} (start : s.Alike r t) :
    Agree (Stop.Related E) (Collector.Alike r) (ls.foldlM Collector.step s).result (ls'.foldlM Collector.step t).result
  check {functions functions' : Functions} {s t : Checker} (known : functions.Alike r functions') (start : s.Alike r t) :
    Agree (Stop.Related E) (Checker.Alike r) (ls.foldlM (Checker.step functions) s).result
      (ls'.foldlM (Checker.step functions') t).result

namespace RunAlike

variable {E : Rejection → Rejection → Prop} {ls ls' ms ms' : List NumberedLine}

theorem nil : RunAlike r E [] [] where
  collect start := .ok start
  check _ start := .ok start

theorem append (h : RunAlike r E ls ls') (hmore : RunAlike r E ms ms') : RunAlike r E (ls ++ ms) (ls' ++ ms') where
  collect start := by
    rw [List.foldlM_append, List.foldlM_append]
    exact (h.collect start).bind fun _ _ => hmore.collect
  check known start := by
    rw [List.foldlM_append, List.foldlM_append]
    exact (h.check known start).bind fun _ _ => hmore.check known

theorem mono {E' : Rejection → Rejection → Prop} (h : RunAlike r E ls ls') (hE : ∀ a b, E a b → E' a b) :
    RunAlike r E' ls ls' where
  collect start := (h.collect start).mono_error fun _ _ => hE _ _
  check known start := (h.check known start).mono_error fun _ _ => hE _ _

end RunAlike

theorem Mirrors.runAlike {ls ls' : List NumberedLine} (h : Mirrors r f ls ls') :
    RunAlike r (fun a b => b = a.renumber f) ls ls' where
  collect start := h.foldlM (fun _ _ _ _ hst hl => hst.step hl) (fun _ _ _ _ hst hl ha => hst.silent hl ha) start
  check known start :=
    h.foldlM (fun _ _ _ _ hst hl => hst.step known hl) (fun _ _ _ _ hst hl ha => hst.silent hl ha) start

/-- If both passes go through the lines of both programs alike, the verdicts are related in the same way. -/
theorem Source.verdict_of_runAlike {source source' : Source} {E : Rejection → Rejection → Prop}
    (hE : E .unbalanced .unbalanced) (h : RunAlike r E source.lines source'.lines) :
    Agree E Eq source.verdict source'.verdict := by
  have hcollect : Agree (Stop.Related E) (Collector.Alike r) (Collector.run source).result
      (Collector.run source').result := by
    have hstart : Collector.Alike r {} {} := ⟨⟨.nil, .nil⟩, .nil, rfl, .none⟩
    rw [Collector.run, Collector.run, result_emit_bind, result_emit_bind]
    exact (h.collect hstart).bind fun _ _ hst => hst.finish hE source.name source'.name
  have hcheck : ∀ c c' : Collector, c.Alike r c' → Agree (Stop.Related E) (Checker.Alike r)
      (Checker.run source c.functions c.scopes).result (Checker.run source' c'.functions c'.scopes).result := by
    intro c c' hc
    have hstart : Checker.Alike r { scopes := c.scopes } { scopes := c'.scopes } := ⟨hc.scopes, rfl, rfl⟩
    rw [Checker.run, Checker.run]
    refine Agree.mapError ?_ fun stop stop' (hstop : Stop.Related E stop stop') => hstop
    rw [result_emit_bind, result_emit_bind]
    exact (h.check hc.functions hstart).bind fun _ _ hst => hst.finish hE source.name source'.name
  rw [verdict, verdict, judge, judge]
  refine Agree.bind (hcollect.mapError fun stop stop' hstop => hstop) fun c c' hc => ?_
  rw [result_emit_bind, result_emit_bind]
  exact Agree.bind ((hcheck c c' hc).mapError fun stop stop' hstop => hstop) fun _ _ _ => .ok rfl

/-- Programs whose lines correspond get the same verdict, up to the number of the line. -/
theorem Source.verdict_of_mirrors {source source' : Source} (h : Mirrors r f source.lines source'.lines) :
    source'.verdict = source.verdict.mapError (Rejection.renumber f) := by
  have hverdict : Agree (fun a b => b = a.renumber f) Eq source.verdict source'.verdict :=
    verdict_of_runAlike rfl h.runAlike
  generalize source.verdict = x at hverdict ⊢
  generalize source'.verdict = y at hverdict ⊢
  cases hverdict with
  | ok value => rfl
  | error failure =>
    subst failure
    rfl

/-- Where the lines keep their numbers too, the verdict is the same. -/
theorem Source.verdict_eq_of_mirrors {source source' : Source}
    (h : Mirrors r (fun n => n) source.lines source'.lines) : source'.verdict = source.verdict := by
  rw [verdict_of_mirrors h]
  cases source.verdict with
  | ok value => rfl
  | error rejection => exact congrArg Except.error rejection.renumber_id

end LineCheck
