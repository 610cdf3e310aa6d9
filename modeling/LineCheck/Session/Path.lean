/-!
# LineCheck.Session.Path — file names

A path is cut at its slashes.  Empty components and single dots name no file, so the last other component is the name
of the file, and its extension is what follows the last dot in it.
-/

namespace LineCheck.Path

/-- The components of a path between its slashes. -/
def components (path : String) : List (List Char) :=
  path.toList.splitOn '/'

/-- The component says nothing about where the path leads. -/
def isIdle (component : List Char) : Bool :=
  component = [] || component = ['.']

/-- The name of the file, unless the path ends by going up or has no name at all. -/
def fileName? (path : String) : Option (List Char) :=
  match ((components path).filter fun c => !isIdle c).getLast? with
  | none => none
  | some name => if name = ['.', '.'] then none else some name

/-- What follows the last dot of the file name; a dot at its very start is no such dot. -/
def extension? (path : String) : Option String :=
  match fileName? path with
  | none => none
  | some name =>
    let tail := name.reverse.takeWhile (· != '.')
    match name.reverse.dropWhile (· != '.') with
    | _ :: _ :: _ => some (String.ofList tail.reverse)
    | _ => none

example : extension? "programs/a.b.sjava/." = some "sjava" := by decide +kernel

example : extension? ".sjava" = none ∧ extension? "a.sjava/.." = none ∧ extension? "a." = some "" := by
  decide +kernel

end LineCheck.Path
