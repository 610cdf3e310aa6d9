import LineCheck.Pass.Verdict
import LineCheck.Proofs.Pass.Binding
import LineCheck.Proofs.Syntax.Acceptance

/-!
# LineCheck.Proofs.Pass.Step — what one line does to a pass

`Collector.Moves`, and `Checker.MovesOutside` and `Checker.MovesInside` say once what a line can do to the state of a
pass, one constructor for each way in which a line can be legal there; a step succeeds exactly in these ways.
-/

namespace LineCheck

open Traced Text

/-- The line reads as this statement. -/
def NumberedLine.Reads (l : NumberedLine) (statement : Statement) : Prop :=
  ∃ line, Line.ofText l.number l.text = .ok line ∧ line.statement = statement

/-- The statement that the line reads as, if it is one. -/
def NumberedLine.statement? (l : NumberedLine) : Option Statement :=
  (Line.ofText l.number l.text).toOption.map Line.statement

theorem NumberedLine.reads_iff {l : NumberedLine} {statement : Statement} :
    l.Reads statement ↔ l.statement? = some statement := by
  unfold Reads statement?
  cases Line.ofText l.number l.text with
  | ok line => simp [Except.toOption]
  | error e => simp [Except.toOption]

instance (l : NumberedLine) (statement : Statement) : Decidable (l.Reads statement) :=
  decidable_of_iff _ NumberedLine.reads_iff.symm

theorem NumberedLine.Reads.unique {l : NumberedLine} {a b : Statement} (ha : l.Reads a) (hb : l.Reads b) : a = b := by
  obtain ⟨line, hline, rfl⟩ := ha
  obtain ⟨line', hline', rfl⟩ := hb
  rw [hline] at hline'
  cases hline'
  rfl

theorem NumberedLine.reads_or (l : NumberedLine) :
    (∃ statement, l.Reads statement) ∨ ∃ e, Line.ofText l.number l.text = .error e := by
  cases hline : Line.ofText l.number l.text with
  | ok line => exact .inl ⟨line.statement, line, hline, rfl⟩
  | error e => exact .inr ⟨e, rfl⟩

theorem NumberedLine.Reads.netBraces_eq {l : NumberedLine} {a : Statement} (h : l.Reads a) :
    netBraces l.text = a.braces := by
  obtain ⟨line, hline, rfl⟩ := h
  exact netBraces_of_ofText hline

namespace Traced

/-- An event before a computation does not change its result. -/
theorem result_emit_bind {ε α : Type} (event : Event) (f : Unit → Traced ε α) :
    (emit event >>= f).result = (f ()).result := rfl

/-- A computation on a part of the state succeeds where it does on its own. -/
theorem result_map_mapError_eq_ok_iff {ε δ α β : Type} {f : α → β} {g : ε → δ} {x : Traced ε α} {b : β} :
    (f <$> x.mapError g).result = .ok b ↔ ∃ a, x.result = .ok a ∧ b = f a := by
  rw [← bind_pure_comp, result_bind_eq_ok_iff]
  constructor
  · rintro ⟨a, hx, hpure⟩
    cases hpure
    exact ⟨a, result_mapError_eq_ok_iff.mp hx, rfl⟩
  · rintro ⟨a, hx, rfl⟩
    exact ⟨a, result_mapError_eq_ok_iff.mpr hx, rfl⟩

/-- It fails where it does on its own. -/
theorem result_map_mapError_eq_error {ε δ α β : Type} {f : α → β} {g : ε → δ} {x : Traced ε α} {d : δ}
    (h : (f <$> x.mapError g).result = .error d) : ∃ e, x.result = .error e ∧ d = g e := by
  obtain ⟨log, result⟩ := x
  cases result with
  | error e => cases h; exact ⟨e, rfl, rfl⟩
  | ok a => cases h

variable {σ α : Type} {number : Nat} {text : String} {state : σ} {f : Line → Traced (Stop σ) α}

/-- A pass that may stop before it goes on succeeds where it goes on and succeeds. -/
theorem result_ite_stop_eq_ok_iff {p : Prop} [Decidable p] {rejection : Rejection} {x : Traced (Stop σ) α} {a : α} :
    (if p then stop rejection state else x).result = .ok a ↔ ¬p ∧ x.result = .ok a := by
  split
  · next h => exact ⟨fun hstop => (nomatch hstop), fun hok => absurd h hok.1⟩
  · next h => exact ⟨fun hx => ⟨h, hx⟩, fun hok => hok.2⟩

/-- A line that is read goes on to what is done with its statement. -/
theorem result_readLine_bind_of_ok {line : Line} (h : Line.ofText number text = .ok line) :
    (readLine number text state >>= f).result = (f line).result := by
  rw [result_bind, readLine, h]
  rfl

theorem result_readLine_bind_of_error {e : ParseError} (h : Line.ofText number text = .error e) :
    (readLine number text state >>= f).result = .error ⟨.atLine number .invalidSyntax, state⟩ := by
  rw [result_bind, readLine, h]
  rfl

end Traced

/-- Only blank lines and comments are passed over in silence. -/
theorem Statement.eq_of_isSilent {s : Statement} (h : s.isSilent = true) : s = .blank ∨ s = .comment := by
  cases s with
  | blank => exact .inl rfl
  | comment => exact .inr rfl
  | _ => cases h

/-! ### The first pass -/

namespace Collector

variable {s s' : Collector} {l : NumberedLine} {statement : Statement}

theorem result_withScopes_eq_ok_iff {x : Traced (Stop Scopes) Scopes} :
    (s.withScopes x).result = .ok s' ↔ ∃ scopes, x.result = .ok scopes ∧ s' = { s with scopes } :=
  result_map_mapError_eq_ok_iff

theorem result_withScopes_eq_error {x : Traced (Stop Scopes) Scopes} {stop : Stop Collector}
    (h : (s.withScopes x).result = .error stop) :
    ∃ stop', x.result = .error stop' ∧ stop = ⟨stop'.rejection, { s with scopes := stop'.state }⟩ :=
  result_map_mapError_eq_error h

theorem result_register_eq_ok_iff {h : Header} :
    (s.register h).result = .ok s' ↔
      ∃ functions, s.functions.declare ⟨h.name, h.params, s.line⟩ = .ok functions ∧
        s' = { s with functions, skip := some ⟨s.line, 1⟩ } := by
  rw [register, result_bind_eq_ok_iff]
  constructor
  · rintro ⟨-, -, h⟩
    obtain ⟨functions, hdeclare, h⟩ := result_bind_eq_ok_iff.mp h
    rw [result_emit_bind] at h
    cases h
    exact ⟨functions, result_require_eq_ok_iff.mp hdeclare, rfl⟩
  · rintro ⟨functions, hdeclare, rfl⟩
    exact ⟨(), rfl, result_bind_eq_ok_iff.mpr ⟨functions, result_require_eq_ok_iff.mpr hdeclare, rfl⟩⟩

/-- What a line does to the first pass where it breaks no rule. -/
inductive Moves (s : Collector) (l : NumberedLine) : Collector → Prop where
  /-- A line of a block that is passed over. -/
  | more {k : Skip} (skip : s.skip = some k) (left : 0 < k.balance + netBraces l.text) :
      Moves s l { s with line := l.number, skip := some { k with balance := k.balance + netBraces l.text } }
  /-- The last line of a block that is passed over. -/
  | done {k : Skip} (skip : s.skip = some k) (closed : k.balance + netBraces l.text ≤ 0) :
      Moves s l { s with line := l.number, skip := none }
  | idle {statement : Statement} (skip : s.skip = none) (reads : l.Reads statement)
      (silent : statement.isSilent = true ∨ statement = .return ∨ ∃ c, statement = .call c) :
      Moves s l { s with line := l.number }
  | declaration {d : Declaration} {scopes : Scopes} (skip : s.skip = none) (reads : l.Reads (.declaration d))
      (run : (d.perform l.number s.scopes).result = .ok scopes) : Moves s l { s with line := l.number, scopes }
  | assignment {as : List Assignment} {scopes : Scopes} (skip : s.skip = none) (reads : l.Reads (.assignment as))
      (run : (performAll as l.number s.scopes).result = .ok scopes) : Moves s l { s with line := l.number, scopes }
  | function {h : Header} {functions : Functions} (skip : s.skip = none) (reads : l.Reads (.function h))
      (declared : s.functions.declare ⟨h.name, h.params, l.number⟩ = .ok functions) :
      Moves s l { s with line := l.number, functions, skip := some ⟨l.number, 1⟩ }
  | guard {w : GuardWord} {c : Condition} (skip : s.skip = none) (reads : l.Reads (.guard w c)) :
      Moves s l { s with line := l.number, skip := some ⟨l.number, 1⟩ }
  | close {depth : Nat} (skip : s.skip = none) (reads : l.Reads .closeBrace) (opened : s.depth = depth + 1) :
      Moves s l { s with line := l.number, depth }

theorem result_step_of_reads (hskip : s.skip = none) (hl : l.Reads statement) :
    (s.step l).result = (perform { s with line := l.number } statement).result := by
  obtain ⟨line, hline, rfl⟩ := hl
  simp only [step, hskip]
  exact result_readLine_bind_of_ok hline

theorem reads_of_step (hskip : s.skip = none) (h : (s.step l).result = .ok s') : ∃ statement, l.Reads statement := by
  refine l.reads_or.resolve_right ?_
  rintro ⟨e, he⟩
  simp only [step, hskip] at h
  rw [result_readLine_bind_of_error he] at h
  cases h

theorem result_step_of_skip {k : Skip} (hskip : s.skip = some k) :
    (s.step l).result = (passOver { s with line := l.number } k l.text).result := by
  simp only [step, hskip]

/-- A step of the first pass succeeds in these ways only. -/
theorem result_step_eq_ok_iff : (s.step l).result = .ok s' ↔ s.Moves l s' := by
  constructor
  · intro h
    cases hskip : s.skip with
    | some k =>
      rw [result_step_of_skip hskip, passOver] at h
      dsimp only at h
      split at h
      · next hmore => cases h; exact .more hskip hmore
      · next hdone => cases h; exact .done hskip (by omega)
    | none =>
      obtain ⟨statement, hreads⟩ := reads_of_step hskip h
      rw [result_step_of_reads hskip hreads] at h
      cases statement with
      | blank => cases h; exact .idle hskip hreads (.inl rfl)
      | comment => cases h; exact .idle hskip hreads (.inl rfl)
      | declaration d =>
        obtain ⟨scopes, hrun, rfl⟩ := result_withScopes_eq_ok_iff.mp h
        exact .declaration hskip hreads hrun
      | assignment as =>
        obtain ⟨scopes, hrun, rfl⟩ := result_withScopes_eq_ok_iff.mp h
        exact .assignment hskip hreads hrun
      | function hd =>
        obtain ⟨functions, hdeclare, rfl⟩ := result_register_eq_ok_iff.mp h
        exact .function hskip hreads hdeclare
      | call c => cases h; exact .idle hskip hreads (.inr (.inr ⟨c, rfl⟩))
      | guard w c => cases h; exact .guard hskip hreads
      | «return» => cases h; exact .idle hskip hreads (.inr (.inl rfl))
      | closeBrace =>
        cases hdepth : s.depth with
        | zero => simp [perform, closeBlock, hdepth] at h
        | succ depth =>
          simp only [perform, closeBlock, hdepth] at h
          cases h
          exact .close hskip hreads hdepth
  · intro h
    cases h with
    | more hskip hmore => rw [result_step_of_skip hskip, passOver, if_pos hmore]; rfl
    | done hskip hdone => rw [result_step_of_skip hskip, passOver, if_neg (by omega)]; rfl
    | @idle statement hskip hreads hsilent =>
      rw [result_step_of_reads hskip hreads]
      rcases hsilent with hsilent | rfl | ⟨c, rfl⟩
      · obtain rfl | rfl := Statement.eq_of_isSilent hsilent <;> rfl
      · rfl
      · rfl
    | declaration hskip hreads hrun =>
      rw [result_step_of_reads hskip hreads]
      exact result_withScopes_eq_ok_iff.mpr ⟨_, hrun, rfl⟩
    | assignment hskip hreads hrun =>
      rw [result_step_of_reads hskip hreads]
      exact result_withScopes_eq_ok_iff.mpr ⟨_, hrun, rfl⟩
    | function hskip hreads hdeclare =>
      rw [result_step_of_reads hskip hreads]
      exact result_register_eq_ok_iff.mpr ⟨_, hdeclare, rfl⟩
    | guard hskip hreads => rw [result_step_of_reads hskip hreads]; rfl
    | close hskip hreads hdepth =>
      rw [result_step_of_reads hskip hreads]
      simp only [perform, closeBlock, hdepth]
      rfl

end Collector

/-! ### The second pass -/

/-- What a line of a function that opens and closes no block has to satisfy, and what it does to the variables. -/
inductive Statement.Performs (functions : Functions) (number : Nat) (scopes : Scopes) : Statement → Scopes → Prop where
  | blank : Performs functions number scopes .blank scopes
  | comment : Performs functions number scopes .comment scopes
  | declaration {d : Declaration} {scopes' : Scopes} (run : (d.perform number scopes).result = .ok scopes') :
      Performs functions number scopes (.declaration d) scopes'
  | assignment {as : List Assignment} {scopes' : Scopes} (run : (performAll as number scopes).result = .ok scopes') :
      Performs functions number scopes (.assignment as) scopes'
  | call {c : Call} (legal : c.check functions scopes = .ok ()) : Performs functions number scopes (.call c) scopes
  | return : Performs functions number scopes .return scopes

/-- A call, a condition or a `return`, which have a place only in functions. -/
def Statement.isAction : Statement → Bool
  | call _ => true
  | guard _ _ => true
  | .return => true
  | _ => false

namespace Checker

variable {functions : Functions} {s s' : Checker} {l : NumberedLine} {statement : Statement} {b : OpenBlock}
  {outer : List OpenBlock}

theorem result_withScopes_eq_ok_iff {x : Traced (Stop Scopes) Scopes} :
    (s.withScopes x).result = .ok s' ↔ ∃ scopes, x.result = .ok scopes ∧ s' = { s with scopes } :=
  result_map_mapError_eq_ok_iff

theorem result_withScopes_eq_error {x : Traced (Stop Scopes) Scopes} {stop : Stop Checker}
    (h : (s.withScopes x).result = .error stop) :
    ∃ stop', x.result = .error stop' ∧ stop = ⟨stop'.rejection, { s with scopes := stop'.state }⟩ :=
  result_map_mapError_eq_error h

/-- What a line outside functions does to the second pass where it breaks no rule. -/
inductive MovesOutside (s : Checker) (l : NumberedLine) : Checker → Prop where
  | idle {statement : Statement} (reads : l.Reads statement)
      (known : statement.isSilent = true ∨ ∃ d, statement = .declaration d) :
      MovesOutside s l { s with line := l.number }
  | replay {as : List Assignment} {scopes : Scopes} (reads : l.Reads (.assignment as))
      (run : (performAll as l.number s.scopes).result = .ok scopes) :
      MovesOutside s l { s with line := l.number, scopes }
  /-- The header of a function. -/
  | enter {h : Header} {scopes : Scopes} (reads : l.Reads (.function h))
      (params : (h.declareParams l.number s.scopes.openFunction).result = .ok scopes) :
      MovesOutside s l ⟨scopes, s.depth + 1, l.number, [⟨.function, false⟩]⟩
  | stray {depth : Nat} (reads : l.Reads .closeBrace) (opened : s.depth = depth + 1) :
      MovesOutside s l { s with line := l.number, depth }

/-- What a line in the block `b`, around which the blocks `outer` are open, does where it breaks no rule. -/
inductive MovesInside (functions : Functions) (s : Checker) (b : OpenBlock) (outer : List OpenBlock)
    (l : NumberedLine) : Checker → Prop where
  /-- A line that opens and closes no block. -/
  | line {statement : Statement} {scopes : Scopes} (reads : l.Reads statement)
      (run : statement.Performs functions l.number s.scopes scopes) :
      MovesInside functions s b outer l ⟨scopes, s.depth, l.number, b.after statement :: outer⟩
  | guard {w : GuardWord} {c : Condition} (reads : l.Reads (.guard w c)) (legal : c.check s.scopes = .ok ()) :
      MovesInside functions s b outer l
        ⟨s.scopes.openBlock, s.depth + 1, l.number, ⟨.guard, false⟩ :: b.after (.guard w c) :: outer⟩
  | close {depth : Nat} (reads : l.Reads .closeBrace) (opened : s.depth = depth + 1)
      (ended : b.opener = .function → b.returns = true) :
      MovesInside functions s b outer l ⟨b.leave s.scopes, depth, l.number, outer⟩

theorem reads_of_step (h : (s.step functions l).result = .ok s') : ∃ statement, l.Reads statement := by
  refine l.reads_or.resolve_right ?_
  rintro ⟨e, he⟩
  rw [step, result_readLine_bind_of_error he] at h
  cases h

theorem result_step_of_outside (houtside : s.blocks = []) (hl : l.Reads statement) :
    (s.step functions l).result = (performOutside { s with line := l.number } statement).result := by
  obtain ⟨line, hline, rfl⟩ := hl
  rw [step, result_readLine_bind_of_ok hline]
  simp only [dispatch, houtside]

theorem result_step_of_inside (hinside : s.blocks = b :: outer) (hl : l.Reads statement) :
    (s.step functions l).result = (performInside functions { s with line := l.number } b outer statement).result := by
  obtain ⟨line, hline, rfl⟩ := hl
  rw [step, result_readLine_bind_of_ok hline]
  simp only [dispatch, hinside]

theorem result_beginFunction_eq_ok_iff {h : Header} :
    (s.beginFunction h).result = .ok s' ↔
      ∃ scopes, (h.declareParams s.line s.scopes.openFunction).result = .ok scopes ∧
        s' = ⟨scopes, s.depth + 1, s.line, ⟨.function, false⟩ :: s.blocks⟩ := by
  rw [beginFunction, result_emit_bind, result_bind_eq_ok_iff]
  constructor
  · rintro ⟨s₁, h₁, h⟩
    obtain ⟨scopes, hparams, rfl⟩ := result_withScopes_eq_ok_iff.mp h₁
    cases h
    exact ⟨scopes, hparams, rfl⟩
  · rintro ⟨scopes, hparams, rfl⟩
    exact ⟨_, result_withScopes_eq_ok_iff.mpr ⟨scopes, hparams, rfl⟩, rfl⟩

theorem result_beginGuard_eq_ok_iff {c : Condition} :
    (s.beginGuard c).result = .ok s' ↔
      c.check s.scopes = .ok () ∧ s' = ⟨s.scopes.openBlock, s.depth + 1, s.line, ⟨.guard, false⟩ :: s.blocks⟩ := by
  rw [beginGuard, result_bind_eq_ok_iff]
  constructor
  · rintro ⟨⟨⟩, hlegal, h⟩
    cases h
    exact ⟨result_require_eq_ok_iff.mp hlegal, rfl⟩
  · rintro ⟨hlegal, rfl⟩
    exact ⟨(), result_require_eq_ok_iff.mpr hlegal, rfl⟩

theorem result_closeBrace_eq_ok_iff :
    s.closeBrace.result = .ok s' ↔ ∃ depth, s.depth = depth + 1 ∧ s' = { s with depth } := by
  unfold closeBrace
  split
  · next hdepth => simp [hdepth]
  · next depth hdepth =>
    constructor
    · intro h
      cases h
      exact ⟨depth, hdepth, rfl⟩
    · rintro ⟨depth', hdepth', rfl⟩
      obtain rfl : depth = depth' := by omega
      rfl

theorem result_leaveBlock_eq_ok_iff :
    (s.leaveBlock b outer).result = .ok s' ↔
      (b.opener = .function → b.returns = true) ∧ s' = { s with scopes := b.leave s.scopes, blocks := outer } := by
  have hended : ¬(b.opener = .function ∧ b.returns = false) ↔ (b.opener = .function → b.returns = true) := by
    cases b.returns <;> simp
  rw [leaveBlock, ← hended, result_ite_stop_eq_ok_iff, result_pure, Except.ok.injEq]
  exact and_congr_right fun _ => eq_comm

/-- A step of the second pass outside functions succeeds in these ways only. -/
theorem result_step_outside_iff (houtside : s.blocks = []) :
    (s.step functions l).result = .ok s' ↔ s.MovesOutside l s' := by
  constructor
  · intro h
    obtain ⟨statement, hl⟩ := reads_of_step h
    rw [result_step_of_outside houtside hl] at h
    cases statement with
    | blank => cases h; exact .idle hl (.inl rfl)
    | comment => cases h; exact .idle hl (.inl rfl)
    | declaration d => cases h; exact .idle hl (.inr ⟨d, rfl⟩)
    | assignment as =>
      obtain ⟨scopes, hrun, rfl⟩ := result_withScopes_eq_ok_iff.mp h
      exact .replay hl hrun
    | function hd =>
      obtain ⟨scopes, hparams, rfl⟩ := result_beginFunction_eq_ok_iff.mp h
      rw [houtside]
      exact .enter hl hparams
    | call c => cases h
    | guard w c => cases h
    | «return» => cases h
    | closeBrace =>
      obtain ⟨depth, hdepth, rfl⟩ := result_closeBrace_eq_ok_iff.mp h
      exact .stray hl hdepth
  · intro h
    cases h with
    | @idle statement hl hknown =>
      rw [result_step_of_outside houtside hl]
      rcases hknown with hsilent | ⟨d, rfl⟩
      · obtain rfl | rfl := Statement.eq_of_isSilent hsilent <;> rfl
      · rfl
    | replay hl hrun =>
      rw [result_step_of_outside houtside hl]
      exact result_withScopes_eq_ok_iff.mpr ⟨_, hrun, rfl⟩
    | enter hl hparams =>
      rw [result_step_of_outside houtside hl]
      refine result_beginFunction_eq_ok_iff.mpr ⟨_, hparams, ?_⟩
      simp only [houtside]
    | stray hl hdepth =>
      rw [result_step_of_outside houtside hl]
      exact result_closeBrace_eq_ok_iff.mpr ⟨_, hdepth, rfl⟩

/-- A step of the second pass inside a block succeeds in these ways only. -/
theorem result_step_inside_iff (hinside : s.blocks = b :: outer) :
    (s.step functions l).result = .ok s' ↔ s.MovesInside functions b outer l s' := by
  constructor
  · intro h
    obtain ⟨statement, hl⟩ := reads_of_step h
    rw [result_step_of_inside hinside hl] at h
    cases statement with
    | blank => cases h; exact .line hl .blank
    | comment => cases h; exact .line hl .comment
    | declaration d =>
      obtain ⟨scopes, hrun, rfl⟩ := result_withScopes_eq_ok_iff.mp h
      exact .line hl (.declaration hrun)
    | assignment as =>
      obtain ⟨scopes, hrun, rfl⟩ := result_withScopes_eq_ok_iff.mp h
      exact .line hl (.assignment hrun)
    | function hd => cases h
    | call c =>
      obtain ⟨⟨⟩, hlegal, h⟩ := result_bind_eq_ok_iff.mp h
      cases h
      exact .line hl (.call (result_require_eq_ok_iff.mp hlegal))
    | guard w c =>
      obtain ⟨hlegal, rfl⟩ := result_beginGuard_eq_ok_iff.mp h
      exact .guard hl hlegal
    | «return» => cases h; exact .line hl .return
    | closeBrace =>
      obtain ⟨s₁, hclose, h⟩ := result_bind_eq_ok_iff.mp h
      obtain ⟨depth, hdepth, rfl⟩ := result_closeBrace_eq_ok_iff.mp hclose
      obtain ⟨hended, rfl⟩ := result_leaveBlock_eq_ok_iff.mp h
      exact .close hl hdepth hended
  · intro h
    cases h with
    | line hl hrun =>
      rw [result_step_of_inside hinside hl]
      cases hrun with
      | blank => rfl
      | comment => rfl
      | declaration hrun => exact result_withScopes_eq_ok_iff.mpr ⟨_, hrun, rfl⟩
      | assignment hrun => exact result_withScopes_eq_ok_iff.mpr ⟨_, hrun, rfl⟩
      | call hlegal => exact result_bind_eq_ok_iff.mpr ⟨(), result_require_eq_ok_iff.mpr hlegal, rfl⟩
      | «return» => rfl
    | guard hl hlegal =>
      rw [result_step_of_inside hinside hl]
      exact result_beginGuard_eq_ok_iff.mpr ⟨hlegal, rfl⟩
    | close hl hdepth hended =>
      rw [result_step_of_inside hinside hl]
      refine result_bind_eq_ok_iff.mpr ⟨_, result_closeBrace_eq_ok_iff.mpr ⟨_, hdepth, rfl⟩, ?_⟩
      exact result_leaveBlock_eq_ok_iff.mpr ⟨hended, rfl⟩

/-! What the header of a function and the lines of a block need, one by one. -/

section Statements

variable (functions)

theorem result_step_function_iff {h : Header} (houtside : s.blocks = []) (hl : l.Reads (.function h)) :
    (s.step functions l).result = .ok s' ↔
      ∃ scopes, (h.declareParams l.number s.scopes.openFunction).result = .ok scopes ∧
        s' = ⟨scopes, s.depth + 1, l.number, [⟨.function, false⟩]⟩ := by
  rw [result_step_of_outside houtside hl, performOutside, result_beginFunction_eq_ok_iff, houtside]

theorem result_step_line_iff (hinside : s.blocks = b :: outer) (hl : l.Reads statement)
    (hbraces : statement.braces = 0) :
    (s.step functions l).result = .ok s' ↔ ∃ scopes, statement.Performs functions l.number s.scopes scopes ∧
      s' = ⟨scopes, s.depth, l.number, b.after statement :: outer⟩ := by
  rw [result_step_inside_iff hinside]
  constructor
  · intro h
    cases h with
    | line hreads run =>
      obtain rfl := hl.unique hreads
      exact ⟨_, run, rfl⟩
    | guard hreads _ => obtain rfl := hl.unique hreads; cases hbraces
    | close hreads _ _ => obtain rfl := hl.unique hreads; cases hbraces
  · rintro ⟨scopes, run, rfl⟩
    exact .line hl run

theorem result_step_guard_iff {w : GuardWord} {c : Condition} (hinside : s.blocks = b :: outer)
    (hl : l.Reads (.guard w c)) :
    (s.step functions l).result = .ok s' ↔ c.check s.scopes = .ok () ∧
      s' = ⟨s.scopes.openBlock, s.depth + 1, l.number, ⟨.guard, false⟩ :: b.after (.guard w c) :: outer⟩ := by
  rw [result_step_of_inside hinside hl]
  exact result_beginGuard_eq_ok_iff

theorem result_step_close_iff (hinside : s.blocks = b :: outer) (hl : l.Reads .closeBrace) :
    (s.step functions l).result = .ok s' ↔ ∃ depth, s.depth = depth + 1 ∧
      (b.opener = .function → b.returns = true) ∧ s' = ⟨b.leave s.scopes, depth, l.number, outer⟩ := by
  rw [result_step_of_inside hinside hl, performInside, result_bind_eq_ok_iff]
  constructor
  · rintro ⟨s₁, hclose, hleave⟩
    obtain ⟨depth, hdepth, rfl⟩ := result_closeBrace_eq_ok_iff.mp hclose
    obtain ⟨hended, rfl⟩ := result_leaveBlock_eq_ok_iff.mp hleave
    exact ⟨depth, hdepth, hended, rfl⟩
  · rintro ⟨depth, hdepth, hended, rfl⟩
    exact ⟨_, result_closeBrace_eq_ok_iff.mpr ⟨depth, hdepth, rfl⟩, result_leaveBlock_eq_ok_iff.mpr ⟨hended, rfl⟩⟩

end Statements

end Checker

end LineCheck
