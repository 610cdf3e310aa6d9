import LineCheck.Pass.Binding
import LineCheck.Source.Basic

/-!
# LineCheck.Pass.Collect — the first pass: globals and functions

The first pass goes over the lines once.  Outside blocks it declares globals, makes assignments and registers the
functions; a block is passed over by the balance of its braces alone, whatever its lines say.  Actions that have no
place outside functions are left to the second pass.
-/

namespace LineCheck

/-- A block that is being passed over: the line of its header, and how many braces are still open. -/
structure Skip where
  first : Nat
  balance : Int
  deriving DecidableEq, Repr

/-- The state of the first pass: what is known so far, the number of blocks that are open, the last line read, and the
block that is being passed over. -/
structure Collector where
  scopes : Scopes := {}
  functions : Functions := {}
  depth : Nat := 0
  line : Nat := 0
  skip : Option Skip := none
  deriving DecidableEq, Repr

namespace Collector

/-- Go on with the variables that a line leaves, or stop with those that it has left so far. -/
def withScopes (s : Collector) (x : Traced (Stop Scopes) Scopes) : Traced (Stop Collector) Collector :=
  (fun scopes => { s with scopes }) <$> x.mapError fun stop => ⟨stop.rejection, { s with scopes := stop.state }⟩

/-- Pass over the block whose header is the current line; the header has opened one brace. -/
def beginSkip (s : Collector) : Collector :=
  { s with skip := some ⟨s.line, 1⟩ }

/-- Pass over a line of a block, which is its last one when no brace is left open. -/
def passOver (s : Collector) (k : Skip) (text : String) : Traced (Stop Collector) Collector :=
  let balance := k.balance + Text.netBraces text
  if 0 < balance then pure { s with skip := some { k with balance } }
  else do
    Traced.emit (.skipped k.first s.line)
    return { s with skip := none }

/-- Register a function and pass over its lines. -/
def register (s : Collector) (h : Header) : Traced (Stop Collector) Collector := do
  let signature : Signature := ⟨h.name, h.params, s.line⟩
  Traced.emit? ((s.functions.find? h.name).map (.redeclared s.line ·))
  let functions ← Traced.require s.line s (s.functions.declare signature)
  Traced.emit (.registered signature)
  return { s with functions }.beginSkip

/-- A closing brace outside blocks has nothing to close. -/
def closeBlock (s : Collector) : Traced (Stop Collector) Collector :=
  match s.depth with
  | 0 => Traced.stop .unbalanced s
  | depth + 1 => pure { s with depth }

/-- What a line outside blocks does. -/
def perform (s : Collector) (statement : Statement) : Traced (Stop Collector) Collector :=
  match statement with
  | .blank => pure s
  | .comment => pure s
  | .declaration d => s.withScopes (d.perform s.line s.scopes)
  | .assignment as => s.withScopes (performAll as s.line s.scopes)
  | .function h => s.register h
  | .call _ => pure s
  | .guard _ _ => pure s.beginSkip
  | .return => pure s
  | .closeBrace => s.closeBlock

/-- Read one line. -/
def step (s : Collector) (l : NumberedLine) : Traced (Stop Collector) Collector :=
  let s := { s with line := l.number }
  match s.skip with
  | some k => s.passOver k l.text
  | none => do
    let line ← Traced.readLine l.number l.text s
    s.perform line.statement

/-- The end of the program, where no block may be open. -/
def finish (s : Collector) (source : String) : Traced (Stop Collector) Collector :=
  if s.skip.isSome || s.depth != 0 then Traced.stop .unbalanced s
  else do
    Traced.emit (.passFinished source .collect s.line)
    return s

/-- The first pass over a program. -/
def run (source : Source) : Traced (Stop Collector) Collector := do
  Traced.emit (.passStarted source.name .collect)
  let s ← source.lines.foldlM step {}
  s.finish source.name

end Collector

end LineCheck
