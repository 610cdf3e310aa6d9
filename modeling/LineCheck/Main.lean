import LineCheck.Session.CommandLine

/-!
# LineCheck.Main — the program

Reads the file that the arguments ask for, writes what `Response.ofArgs` says, and exits with its code.
-/

namespace LineCheck

/-- The fault that an error of the file system stands for; a path that leads to the wrong sort of thing leads to a
directory if the error has number 21, and through a file otherwise, and a path that is refused for its form holds a
NUL if the error has number 22, and is too long otherwise. -/
def faultOfError : IO.Error → ReadFault
  | .noFileOrDirectory _ _ _ => .notFound
  | .inappropriateType _ 21 _ => .isADirectory
  | .inappropriateType _ _ _ => .notADirectory
  | .invalidArgument _ 22 _ => .nulInName
  | .invalidArgument _ _ _ => .nameTooLong
  | e => .other (toString e)

/-- The bytes of a file, or the reason why there are none. -/
def readFile (path : String) : IO (Except ReadFault ByteArray) := do
  try
    return .ok (← IO.FS.readBinFile path)
  catch e =>
    return .error (faultOfError e)

end LineCheck

open LineCheck

/-- Read the arguments, and the file that they ask for, and answer. -/
def main (args : List String) : IO UInt32 := do
  let file ← match (Request.ofArgs args).path? with
    | some path => readFile path
    | none => pure (.error .notFound)
  let response := Response.ofArgs (fun _ => file) args
  IO.print response.stdout
  IO.eprint response.stderr
  return UInt32.ofNat response.code
