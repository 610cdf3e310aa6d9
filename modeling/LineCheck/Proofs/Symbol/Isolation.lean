import LineCheck.Proofs.Symbol.Operation

/-!
# LineCheck.Proofs.Symbol.Isolation — functions work on a copy of the globals

Inside a function a global may be assigned to like any other variable, but it is the function's copy that changes.  So
whatever is called between entering a function and leaving it, the globals are the same afterwards
(`globals_isolated`), as long as no call names the globals themselves and none closes the function's own two tables.
-/

namespace LineCheck

/-- Calls between entering a function and leaving it, with `n` blocks open at their start: no call declares a global or
leaves the function, and each table that is closed is that of a block opened since the function was entered last. -/
inductive Operation.Inside : Nat → List Operation → Prop where
  | nil {n : Nat} : Inside n []
  | work {n : Nat} {op : Operation} {ops : List Operation} (isLocal : op.isLocal = true) (rest : Inside n ops) :
      Inside n (op :: ops)
  /-- A function is entered anew, and nothing of the one before is left. -/
  | openFunction {n : Nat} {ops : List Operation} (rest : Inside 0 ops) : Inside n (.openFunction :: ops)
  | openBlock {n : Nat} {ops : List Operation} (rest : Inside (n + 1) ops) : Inside n (.openBlock :: ops)
  | closeInnermost {n : Nat} {ops : List Operation} (rest : Inside n ops) : Inside (n + 1) (.closeInnermost :: ops)

namespace Scopes

/-- With the copy of the globals and the function's own table below the `n` open blocks, no call reaches the globals. -/
theorem globals_after_of_inside {n : Nat} {ops : List Operation} (h : Operation.Inside n ops) {s : Scopes}
    (hs : s.depth = n + 2) : (s.after ops).globals = s.globals := by
  induction h generalizing s with
  | nil => rfl
  | @work n op ops hlocal _ ih =>
    have hkeeps := Operation.keeps_next hlocal s
    have hstack : s.stack ≠ [] := by
      intro hnil
      simp [depth, hnil] at hs
    rw [after_cons, ih (hkeeps.height.trans hs), hkeeps.globals hstack]
  | openFunction _ ih => exact ih rfl
  | openBlock _ ih => exact ih (congrArg (· + 1) hs)
  | @closeInnermost n _ _ ih =>
    apply ih
    show s.closeInnermost.depth = n + 2
    rw [depth_closeInnermost]
    omega

/-- A function leaves the globals as they were, whatever it declares and assigns and whichever of its calls break a
rule; so every name means what it meant before, with the same type and the same value. -/
theorem globals_isolated {s : Scopes} (houtside : s.inFunction = false) {ops : List Operation}
    (hops : Operation.Inside 0 ops) :
    let s' := s.after (.openFunction :: ops ++ [.closeAll])
    s'.globals = s.globals ∧ s'.inFunction = false ∧
      ∀ name, s'.resolve name = s.resolve name ∧ s'.typeOf name = s.typeOf name ∧ s'.valueOf name = s.valueOf name := by
  intro s'
  have hend : s' = (s.openFunction.after ops).closeAll := by simp [s']
  have hglobals : s'.globals = s.globals := by
    rw [hend, globals_closeAll]
    exact globals_after_of_inside hops rfl
  have hstack : s'.stack = [] := by rw [hend]; rfl
  -- outside functions the globals are all there is
  have hsame : s' = s := by
    have hnil : s.stack = [] := by simpa [inFunction] using houtside
    show Scopes.mk s'.globals s'.stack = s
    rw [hglobals, hstack, ← hnil]
  exact ⟨hglobals, hsame ▸ houtside, fun name => by rw [hsame]; exact ⟨rfl, rfl, rfl⟩⟩

/-- A global that is not final is given a value and hidden by a local variable of its name, a final one is assigned to
in vain, and a block is opened and closed. -/
theorem globals_isolated_shadowed :
    let s : Scopes := ⟨[("g", ⟨"g", .int, none, false⟩), ("c", ⟨"c", .int, some "1", true⟩)], []⟩
    let body : List Operation :=
      [.assign "g" "7", .assign "c" "2", .openBlock, .declare ⟨"g", .string, none, false⟩, .assign "g" "\"s\"",
        .closeInnermost, .valueOf "g"]
    let s' := s.after (.openFunction :: body ++ [.closeAll])
    Operation.Inside 0 body ∧ (s.openFunction.after body).valueOf "g" = .ok (some "7") ∧
      s'.globals = s.globals ∧ s'.valueOf "g" = .ok none := by
  intro s body
  have hbody : Operation.Inside 0 body :=
    .work rfl (.work rfl (.openBlock (.work rfl (.work rfl (.closeInnermost (.work rfl .nil))))))
  obtain ⟨hglobals, -, hnames⟩ := globals_isolated (s := s) rfl hbody
  exact ⟨hbody, by decide, hglobals, (hnames "g").2.2.trans rfl⟩

end Scopes

end LineCheck
