import LineCheck.Symbol.Functions
import LineCheck.Syntax.Line

/-!
# LineCheck.Pass.Event — what a check reports while it goes on

Each step of a check is an event that keeps what it is about; level and wording are settled here and nowhere else.
-/

namespace LineCheck

/-- A program is gone through twice: first its functions and globals are collected, then its lines are checked. -/
inductive Pass where
  | collect
  | check
  deriving DecidableEq, Repr

/-- How messages name the pass. -/
def Pass.title : Pass → String
  | collect => "Collect"
  | check => "Check"

/-- How much a record matters. -/
inductive Level where
  | trace
  | debug
  | info
  deriving DecidableEq, Repr

/-- How records name the level. -/
def Level.label : Level → String
  | trace => "TRACE"
  | debug => "DEBUG"
  | info => "INFO"

/-- Something that happened during a check. -/
inductive Event where
  /-- A pass over the program began. -/
  | passStarted (source : String) (pass : Pass)
  /-- A pass over the program came to its end, the last line read being `line`. -/
  | passFinished (source : String) (pass : Pass) (line : Nat)
  /-- The functions of the program are known. -/
  | collected (source : String) (count : Nat)
  /-- A line was read as a statement. -/
  | classified (line : Line)
  /-- A line is no statement. -/
  | malformed (number : Nat) (error : ParseError)
  /-- A variable was declared. -/
  | declared (number : Nat) (ty : Ty) (name : String)
  /-- A function was declared a second time. -/
  | redeclared (number : Nat) (first : Signature)
  /-- A function was declared. -/
  | registered (signature : Signature)
  /-- A block was passed over, from its header to its end. -/
  | skipped (first last : Nat)
  /-- A function's own lines are checked from here on. -/
  | entered (number : Nat) (header : Header)
  /-- The check is over. -/
  | judged (source : String) (verdict : String)
  deriving DecidableEq, Repr

namespace Event

/-- How much the event matters. -/
def level : Event → Level
  | classified _ => .trace
  | declared _ _ _ => .trace
  | judged _ _ => .info
  | _ => .debug

/-- What stands before a record about a line. -/
def lineTag (number : Nat) : String :=
  "line " ++ toString number ++ ": "

/-- The event in words. -/
def text : Event → String
  | passStarted source pass => source ++ ": starting " ++ pass.title ++ " pass"
  | passFinished source pass line => source ++ ": " ++ pass.title ++ " pass finished at line " ++ toString line
  | collected source count => source ++ ": collected " ++ toString count ++ " function signature(s)"
  | classified line => lineTag line.number ++ line.kind.title
  | malformed number error => lineTag number ++ error.message
  | declared number ty name => lineTag number ++ "declared " ++ ty.word ++ " " ++ name
  | redeclared number first =>
    lineTag number ++ "function " ++ first.name ++ " already declared at line " ++ toString first.line
  | registered s =>
    lineTag s.line ++ "registered function " ++ s.name ++ " (" ++ toString s.params.length ++ " parameter(s))"
  | skipped first last => "skipped block from line " ++ toString first ++ " to line " ++ toString last
  | entered number header => lineTag number ++ "checking body of " ++ header.name
  | judged source verdict => source ++ ": " ++ verdict

end Event

end LineCheck
