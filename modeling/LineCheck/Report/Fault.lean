/-!
# LineCheck.Report.Fault — why there is no program to check

A run wants one file name with the right extension, and a file of that name with a text in it.
-/

namespace LineCheck

/-- Why a file could not be read. -/
inductive ReadFault where
  | notFound
  | notADirectory
  | isADirectory
  | nameTooLong
  | nulInName
  | invalidText
  | other (reason : String)
  deriving DecidableEq, Repr

/-- The reason in words. -/
def ReadFault.reason : ReadFault → String
  | notFound => "No such file or directory (os error 2)"
  | notADirectory => "Not a directory (os error 20)"
  | isADirectory => "Is a directory (os error 21)"
  | nameTooLong => "File name too long (os error 36)"
  | nulInName => "file name contained an unexpected NUL byte"
  | invalidText => "stream did not contain valid UTF-8"
  | other reason => reason

/-- Why no program was checked. -/
inductive InputFault where
  | wrongCount (count : Nat)
  | wrongExtension (extension : String)
  | unreadable (path : String) (fault : ReadFault)
  deriving DecidableEq, Repr

/-- The reason in words. -/
def InputFault.message : InputFault → String
  | wrongCount _ => "Invalid number of arguments"
  | wrongExtension extension => "Invalid file type: Expected a ." ++ extension ++ " file"
  | unreadable path fault => "Could not read file " ++ path ++ ": " ++ fault.reason

end LineCheck
