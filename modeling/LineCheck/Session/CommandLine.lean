import LineCheck.Session.Run

/-!
# LineCheck.Session.CommandLine — arguments and output of the program

The arguments are file names and options, in any order; after two dashes all are file names.  The plain output is the
exit code on standard output and the diagnostic on standard error, and the other form is the report as JSON.
-/

namespace LineCheck

/-- What the arguments ask for. -/
inductive Request where
  | version
  | check (files : List String) (json : Bool)
  deriving DecidableEq, Repr

/-- What the program writes, and its exit code. -/
structure Response where
  code : Nat
  stdout : String
  stderr : String
  deriving DecidableEq, Repr

namespace Request

/-- Read the arguments from left to right. -/
def ofArgs : List String → Request
  | [] => check [] false
  | arg :: args =>
    if arg = "--" then check args false
    else if arg = "--version" ∨ arg = "-V" then version
    else
      match ofArgs args with
      | version => version
      | check files json => if arg = "--json" then check files true else check (arg :: files) json

/-- The file that has to be read, if the request is for one with the right extension. -/
def path? : Request → Option String
  | check [path] _ => if Path.extension? path = some Run.defaultExtension then some path else none
  | _ => none

end Request

namespace Response

/-- The name of the program and its version. -/
def versionText : String := "sjavac 0.1.0"

/-- The plain form of an outcome. -/
def plain (o : Outcome) : Response :=
  match o.diagnostic? with
  | some diagnostic => ⟨o.code, toString o.code ++ "\n", diagnostic ++ "\n"⟩
  | none => ⟨o.code, toString o.code ++ "\n" ++ o.message ++ "\n", ""⟩

/-- The report of an outcome. -/
def json (o : Outcome) : Response :=
  ⟨o.code, o.report.toJson ++ "\n", ""⟩

/-- Do what the arguments ask for. -/
def ofArgs (read : String → Except ReadFault ByteArray) (args : List String) : Response :=
  match Request.ofArgs args with
  | .version => ⟨0, versionText ++ "\n", ""⟩
  | .check files asJson =>
    let outcome := (Run.ofArgs read Run.defaultExtension files).outcome
    if asJson then json outcome else plain outcome

end Response

end LineCheck
