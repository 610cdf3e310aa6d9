import LineCheck.Main
import LineCheck.Proofs.Pass.Leads
import LineCheck.Proofs.Token.Braces
import LineCheck.Proofs.Token.Language
import LineCheck.Proofs.Token.LongestMatch
import LineCheck.Proofs.Syntax.Spelling
import LineCheck.Proofs.Syntax.Recognition
import LineCheck.Proofs.Syntax.Acceptance
import LineCheck.Proofs.Syntax.Layout
import LineCheck.Proofs.Syntax.Alike
import LineCheck.Proofs.Token.Tiling
import LineCheck.Proofs.Symbol.Writes
import LineCheck.Proofs.Symbol.Env
import LineCheck.Proofs.Symbol.Ease
import LineCheck.Proofs.Symbol.Operation
import LineCheck.Proofs.Report.Location
import LineCheck.Proofs.Source.Lines
import LineCheck.Proofs.Symbol.Isolation
import LineCheck.Proofs.Symbol.Life
import LineCheck.Proofs.Symbol.Effect
import LineCheck.Proofs.Symbol.Block
import LineCheck.Proofs.Pass.Binding
import LineCheck.Proofs.Pass.Step
import LineCheck.Proofs.Pass.Blocks
import LineCheck.Proofs.Pass.Nesting
import LineCheck.Proofs.Pass.Refusal
import LineCheck.Proofs.Pass.Rejection
import LineCheck.Proofs.Pass.Alignment
import LineCheck.Proofs.Pass.Localisation
import LineCheck.Proofs.Pass.Replay
import LineCheck.Proofs.Pass.Agreement
import LineCheck.Proofs.Symbol.Alike
import LineCheck.Proofs.Pass.Mirror
import LineCheck.Proofs.Pass.Split
import LineCheck.Proofs.Program.Outline
import LineCheck.Proofs.Program.Legal
import LineCheck.Proofs.Program.Rules
import LineCheck.Proofs.Program.Segment
import LineCheck.Proofs.Program.Collect
import LineCheck.Proofs.Program.Check
import LineCheck.Proofs.Program.Verdict
import LineCheck.Proofs.Program.Independence
import LineCheck.Proofs.Program.Names
import LineCheck.Proofs.Program.Insertion
import LineCheck.Proofs.Program.Execution
import LineCheck.Proofs.Syntax.Gap
import LineCheck.Proofs.Report.LineEndings
import LineCheck.Proofs.Program.Relaxation
import LineCheck.Proofs.Program.NewGlobal
import LineCheck.Proofs.Program.Split
import LineCheck.Proofs.Source.Index
import LineCheck.Proofs.Syntax.Locality
import LineCheck.Proofs.Syntax.Completion
import LineCheck.Proofs.Syntax.DeadEnd
import LineCheck.Proofs.Syntax.Position
import LineCheck.Proofs.Syntax.NormalForm
import LineCheck.Proofs.Pass.Consume
