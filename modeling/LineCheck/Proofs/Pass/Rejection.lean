import LineCheck.Proofs.Pass.Localisation

/-!
# LineCheck.Proofs.Pass.Rejection — why a program is refused

A program that is refused either has a line that breaks a rule, or its blocks are not balanced: it ends inside a block,
or it has a closing brace outside blocks (`Source.refusedFor_of_verdict`).  Only the first pass finds the latter
(`verdict_of_unclosed`, `verdict_of_unopened`).
-/

namespace LineCheck

open Traced

theorem Violation.ne_invalidScopeClosing_of_mem_ofRules {v : Violation} (h : v ∈ ofRules) :
    v ≠ .invalidScopeClosing := by
  rintro rfl
  exact absurd h (by decide)

/-- Why a program is refused. -/
inductive Source.RefusedFor (source : Source) : Rejection → Prop where
  /-- One of its lines breaks a rule. -/
  | line {l : NumberedLine} {v : Violation} (mem : l ∈ source.lines) (rule : v ≠ .invalidScopeClosing) :
      RefusedFor source (.atLine l.number v)
  /-- It ends inside a block. -/
  | unclosed {c : Collector} (run : Leads Collector.step {} source.lines c) (inside : c.InBlock) :
      RefusedFor source .unbalanced
  /-- A closing brace stands outside blocks. -/
  | unopened {c : Collector} {l : NumberedLine} {rest : List NumberedLine}
      (reaches : Traced.Reaches Collector.step {} source.lines c l rest) (outside : ¬c.InBlock)
      (reads : l.Reads .closeBrace) : RefusedFor source .unbalanced

variable {source : Source} {c : Collector}

theorem Collector.refusedFor_of_run {stop : Stop Collector} (h : (run source).result = .error stop) :
    source.RefusedFor stop.rejection := by
  rcases result_run_eq_error_iff.mp h with ⟨c, l, rest, hreaches, hl⟩ | ⟨c, hlead, hend⟩
  · obtain ⟨houtside, hrefuses, -, -⟩ := stop_of_step hl
    generalize stop.rejection = r at hrefuses
    cases hrefuses with
    | unread _ => exact .line hreaches.mem (by decide)
    | rule hv => exact .line hreaches.mem (Violation.ne_invalidScopeClosing_of_mem_ofRules hv)
    | redeclared => exact .line hreaches.mem (by decide)
    | stray hreads _ => exact .unopened hreaches (not_not_intro houtside) hreads
  · obtain ⟨hopen, rfl⟩ := result_finish_eq_error hend
    -- no block is counted, so one is being passed over
    exact .unclosed hlead (hopen.resolve_right (not_not_intro (flat_start.leads hlead).1.depth))

/-- What the second pass refuses is always a line. -/
theorem Checker.exists_line_of_run (hc : (Collector.run source).result = .ok c) {stop : Stop Checker}
    (hs : (run source c.functions c.scopes).result = .error stop) :
    ∃ l ∈ source.lines, ∃ v ≠ Violation.invalidScopeClosing, stop.rejection = .atLine l.number v := by
  obtain ⟨s, l, rest, state, hreaches, hl, -⟩ := exists_refused hc hs
  obtain ⟨v, hrejection, hwhy⟩ := violation_of_refused hc hreaches (stop_of_step hl).refuses
  refine ⟨l, Traced.Reaches.mem hreaches, v, ?_, hrejection⟩
  rintro rfl
  simp [Violation.ofRules] at hwhy

theorem Source.verdict_of_collector_error {stop : Stop Collector} (h : (Collector.run source).result = .error stop) :
    source.verdict = .error stop.rejection := by
  rw [verdict_eq, h]

theorem Source.refusedFor_of_verdict {r : Rejection} (h : source.verdict = .error r) : source.RefusedFor r := by
  rw [verdict_eq] at h
  cases hc : (Collector.run source).result with
  | error stop =>
    rw [hc] at h
    cases h
    exact Collector.refusedFor_of_run hc
  | ok c =>
    rw [hc] at h
    dsimp only at h
    cases hs : (Checker.run source c.functions c.scopes).result with
    | ok s => rw [hs] at h; cases h
    | error stop =>
      rw [hs] at h
      cases h
      obtain ⟨l, hmem, v, hv, hrejection⟩ := Checker.exists_line_of_run hc hs
      rw [hrejection]
      exact .line hmem hv

/-- The end of a program inside a block is refused. -/
theorem verdict_of_unclosed (h : Leads Collector.step {} source.lines c) (hinside : c.InBlock) :
    source.verdict = .error .unbalanced := by
  have hend : (c.finish source.name).result = .error ⟨.unbalanced, c⟩ := by
    have hopen : c.skip.isSome = true := Option.isSome_iff_ne_none.mpr hinside
    rw [Collector.finish, hopen]
    rfl
  exact Source.verdict_of_collector_error (Collector.result_run_eq_error_iff.mpr (.inr ⟨c, h, hend⟩))

/-- A closing brace outside blocks is refused. -/
theorem verdict_of_unopened {l : NumberedLine} {rest : List NumberedLine}
    (h : Traced.Reaches Collector.step {} source.lines c l rest) (houtside : ¬c.InBlock) (hl : l.Reads .closeBrace) :
    source.verdict = .error .unbalanced := by
  have hstep : (c.step l).result = .error ⟨.unbalanced, { c with line := l.number }⟩ := by
    obtain ⟨before, -, hlead⟩ := h
    rw [Collector.result_step_of_reads (not_not.mp houtside) hl, Collector.perform, Collector.closeBlock]
    simp only [(Collector.flat_start.leads hlead).1.depth]
    rfl
  exact Source.verdict_of_collector_error (Collector.result_run_eq_error_iff.mpr (.inl ⟨c, l, rest, h, hstep⟩))

end LineCheck
