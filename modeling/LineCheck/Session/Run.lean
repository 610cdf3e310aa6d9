import LineCheck.Session.Path
import LineCheck.Report.Outcome

/-!
# LineCheck.Session.Run — from file names to an outcome

A run wants exactly one file with the right extension.  It is given a function that reads files, so it can be run on
real files and on others alike.
-/

namespace LineCheck

/-- How a run ended, and what happened on the way. -/
structure Run where
  outcome : Outcome
  log : List Event

namespace Source

/-- Check a program, and tell how that ended. -/
def check (source : Source) : Run :=
  let traced := source.judge
  ⟨.ofVerdict source traced.result, traced.log⟩

theorem outcome_check (source : Source) : source.check.outcome = .ofSource source := rfl

end Source

namespace Run

/-- The extension of programs. -/
def defaultExtension : String := "sjava"

/-- A run that checks nothing. -/
def ofFault (fault : InputFault) : Run :=
  ⟨.unusable fault, []⟩

/-- The text that the bytes stand for. -/
def decode (bytes : ByteArray) : Except ReadFault String :=
  match String.fromUTF8? bytes with
  | some text => .ok text
  | none => .error .invalidText

/-- Check the program at a path; the outcome of a check is the last event. -/
def ofPath (read : String → Except ReadFault ByteArray) (extension path : String) : Run :=
  if Path.extension? path ≠ some extension then ofFault (.wrongExtension extension)
  else
    match read path >>= decode with
    | .error fault => ofFault (.unreadable path fault)
    | .ok text =>
      let run := (Source.mk path text).check
      { run with log := run.log ++ [.judged path run.outcome.message] }

/-- Check the program that the arguments name, if they are one. -/
def ofArgs (read : String → Except ReadFault ByteArray) (extension : String) (args : List String) : Run :=
  match args with
  | [path] => ofPath read extension path
  | _ => ofFault (.wrongCount args.length)

end Run

end LineCheck
