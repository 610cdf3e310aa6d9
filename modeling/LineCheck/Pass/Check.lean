import LineCheck.Pass.Binding
import LineCheck.Source.Basic

/-!
# LineCheck.Pass.Check — the second pass: the lines of functions

The second pass goes over the lines again, now with all functions known and the globals as the first pass left them.
Outside functions it only makes the assignments once more and refuses what has no place there.  Inside a function it
checks every line against the variables in sight.

The blocks that are open stand in a list, the innermost first.  Each remembers whether its last line that says
anything was a `return`, for a function has to end with one.  `Checker.consume` is the part of the pass that reads one
block; the pass over all lines is made of such parts.
-/

namespace LineCheck

/-- What opened a block. -/
inductive Opener where
  | function
  | guard
  deriving DecidableEq, Repr

/-- A block that is open: what opened it, and whether its last line so far that says anything is a `return`. -/
structure OpenBlock where
  opener : Opener
  returns : Bool := false
  deriving DecidableEq, Repr

namespace OpenBlock

/-- The block after one more line. -/
def after (b : OpenBlock) (statement : Statement) : OpenBlock :=
  if statement.isSilent then b else { b with returns := statement matches .return }

/-- The variables in sight once the block is left. -/
def leave (b : OpenBlock) (scopes : Scopes) : Scopes :=
  match b.opener with
  | .function => scopes.closeAll
  | .guard => scopes.closeInnermost

end OpenBlock

/-- The state of the second pass: the variables in sight, the number of blocks that are open, the last line read, and
the open blocks themselves. -/
structure Checker where
  scopes : Scopes
  depth : Nat := 0
  line : Nat := 0
  blocks : List OpenBlock := []
  deriving DecidableEq, Repr

namespace Checker

/-- Go on with the variables that a line leaves, or stop with those that it has left so far. -/
def withScopes (s : Checker) (x : Traced (Stop Scopes) Scopes) : Traced (Stop Checker) Checker :=
  (fun scopes => { s with scopes }) <$> x.mapError fun stop => ⟨stop.rejection, { s with scopes := stop.state }⟩

/-! ### Opening and closing blocks -/

/-- The block is open now. -/
def pushBlock (s : Checker) (opener : Opener) : Checker :=
  { s with blocks := ⟨opener, false⟩ :: s.blocks }

/-- Start with the lines of a function. -/
def beginFunction (s : Checker) (h : Header) : Traced (Stop Checker) Checker := do
  Traced.emit (.entered s.line h)
  let s := { s with scopes := s.scopes.openFunction }.pushBlock .function
  let s ← s.withScopes (h.declareParams s.line s.scopes)
  return { s with depth := s.depth + 1 }

/-- Start with the lines behind a condition. -/
def beginGuard (s : Checker) (c : Condition) : Traced (Stop Checker) Checker := do
  Traced.require s.line s (c.check s.scopes)
  let s := { s with scopes := s.scopes.openBlock }.pushBlock .guard
  return { s with depth := s.depth + 1 }

/-- Count a closing brace, which has to have a block to close. -/
def closeBrace (s : Checker) : Traced (Stop Checker) Checker :=
  match s.depth with
  | 0 => Traced.stop .unbalanced s
  | depth + 1 => pure { s with depth }

/-- Leave the innermost block; a function has to end with a `return`. -/
def leaveBlock (s : Checker) (b : OpenBlock) (outer : List OpenBlock) : Traced (Stop Checker) Checker :=
  if b.opener = .function ∧ b.returns = false then Traced.stop (.atLine s.line .lastLineNotReturn) s
  else pure { s with scopes := b.leave s.scopes, blocks := outer }

/-! ### Single lines -/

/-- What a line outside functions does. -/
def performOutside (s : Checker) (statement : Statement) : Traced (Stop Checker) Checker :=
  match statement with
  | .blank => pure s
  | .comment => pure s
  | .declaration _ => pure s
  | .assignment as => s.withScopes (performAll as s.line s.scopes)
  | .function h => s.beginFunction h
  | .call _ => Traced.stop (.atLine s.line .invalidActionInGlobalScope) s
  | .guard _ _ => Traced.stop (.atLine s.line .invalidActionInGlobalScope) s
  | .return => Traced.stop (.atLine s.line .invalidActionInGlobalScope) s
  | .closeBrace => s.closeBrace

/-- What a line in the innermost block `b` does, where `outer` are the blocks around it. -/
def performInside (functions : Functions) (s : Checker) (b : OpenBlock) (outer : List OpenBlock)
    (statement : Statement) : Traced (Stop Checker) Checker :=
  let s' := { s with blocks := b.after statement :: outer }
  match statement with
  | .blank => pure s'
  | .comment => pure s'
  | .declaration d => s'.withScopes (d.perform s.line s.scopes)
  | .assignment as => s'.withScopes (performAll as s.line s.scopes)
  | .function _ => Traced.stop (.atLine s.line .invalidScopeFunctionDeclaration) s'
  | .call c => do
    Traced.require s.line s' (c.check functions s.scopes)
    return s'
  | .guard _ c => s'.beginGuard c
  | .return => pure s'
  | .closeBrace => do
    let s ← s.closeBrace
    s.leaveBlock b outer

/-- What a line does in the place where it stands. -/
def dispatch (functions : Functions) (s : Checker) (statement : Statement) : Traced (Stop Checker) Checker :=
  match s.blocks with
  | [] => s.performOutside statement
  | b :: outer => s.performInside functions b outer statement

/-- Read one line. -/
def step (functions : Functions) (s : Checker) (l : NumberedLine) : Traced (Stop Checker) Checker := do
  let s := { s with line := l.number }
  let line ← Traced.readLine l.number l.text s
  s.dispatch functions line.statement

/-! ### The lines of a block -/

/-- The last line of the innermost block that says anything is a `return`. -/
def returns (s : Checker) : Bool :=
  s.blocks.head?.any OpenBlock.returns

/-- Read on to the end of the block around which `height` blocks are open.  The closing brace is counted; the block is
left by whoever opened it, who is told whether it ended in a `return` and which lines are left. -/
def consume (functions : Functions) (height : Nat) :
    Checker → List NumberedLine → Traced (Stop Checker) (Bool × Checker × List NumberedLine)
  | s, [] => Traced.stop .unbalanced s
  | s, l :: ls => do
    let s := { s with line := l.number }
    let line ← Traced.readLine l.number l.text s
    if s.blocks.length = height + 1 ∧ line.statement = .closeBrace then do
      let next ← s.closeBrace
      return (s.returns, next, ls)
    else do
      let next ← s.dispatch functions line.statement
      consume functions height next ls

/-! ### The whole program -/

/-- The end of the program, where no block may be open. -/
def finish (s : Checker) (source : String) : Traced (Stop Checker) Checker :=
  if !s.blocks.isEmpty || s.depth != 0 then Traced.stop .unbalanced s
  else do
    Traced.emit (.passFinished source .check s.line)
    return s

/-- Leave all open blocks, the innermost first. -/
def unwind (s : Checker) : Checker :=
  { s with scopes := s.blocks.foldl (fun scopes b => b.leave scopes) s.scopes, blocks := [] }

/-- The second pass over a program, with what the first one knows; however it ends, no block stays open. -/
def run (source : Source) (functions : Functions) (scopes : Scopes) : Traced (Stop Checker) Checker :=
  Traced.mapError (fun stop => { stop with state := stop.state.unwind }) do
    Traced.emit (.passStarted source.name .check)
    let s ← source.lines.foldlM (step functions) { scopes }
    s.finish source.name

end Checker

end LineCheck
