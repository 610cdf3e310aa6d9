import LineCheck.Pass.Check
import LineCheck.Pass.Collect

/-!
# LineCheck.Pass.Verdict — whether a program is legal

A program is legal if both passes come to its end.  The first rule that is broken decides otherwise: in the order of
the lines within a pass, and the first pass before the second.
-/

namespace LineCheck

namespace Source

/-- Check a program, and keep a log of it. -/
def judge (source : Source) : Traced Rejection Unit := do
  let collected ← (Collector.run source).mapError Stop.rejection
  Traced.emit (.collected source.name collected.functions.size)
  let _ ← (Checker.run source collected.functions collected.scopes).mapError Stop.rejection
  return ()

/-- The reason why a program is refused, if it is. -/
def verdict (source : Source) : Except Rejection Unit :=
  source.judge.result

/-- The verdict is that of the second pass with what the first one knows, unless the first one has refused already. -/
theorem verdict_eq (source : Source) :
    source.verdict =
      match (Collector.run source).result with
      | .error stop => .error stop.rejection
      | .ok s => ((Checker.run source s.functions s.scopes).result.mapError Stop.rejection).map fun _ => () := by
  simp only [verdict, judge, Traced.result_bind, Traced.result_mapError, Traced.result_emit, Traced.result_pure]
  cases (Collector.run source).result with
  | error stop => rfl
  | ok s =>
    dsimp only
    change ((Checker.run source s.functions s.scopes).result.mapError Stop.rejection >>= fun _ => .ok ()) = _
    cases (Checker.run source s.functions s.scopes).result <;> rfl

end Source

end LineCheck
