/-!
# LineCheck.Text.Braces — comment lines and the braces that a line opens and closes

Where a block ends can be told without reading its lines as statements: `netBraces` is what a line adds to the number of
open braces.  A comment line adds nothing, and neither does a brace between two equal quotes.
-/

namespace LineCheck.Text

/-- A comment starts at the very start of its line. -/
def isComment (line : String) : Bool :=
  ['/', '/'].isPrefixOf line.toList

/-- A character that opens a quoted stretch and closes one that it opened. -/
def isQuote (c : Char) : Bool :=
  c == '"' || c == '\''

/-- What one character adds to the number of open braces. -/
def braceValue (c : Char) : Int :=
  if c = '{' then 1 else if c = '}' then -1 else 0

/-- What the characters add to the number of open braces, where `quote` is the quote that is still open. -/
def netBracesFrom (quote : Option Char) : List Char → Int
  | [] => 0
  | c :: cs =>
    match quote with
    | some q => netBracesFrom (if c = q then none else some q) cs
    | none => if isQuote c then netBracesFrom (some c) cs else braceValue c + netBracesFrom none cs

/-- The braces that a line opens less those that it closes. -/
def netBraces (line : String) : Int :=
  if isComment line then 0 else netBracesFrom none line.toList

end LineCheck.Text
