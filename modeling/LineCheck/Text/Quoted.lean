/-!
# LineCheck.Text.Quoted — a text as a JSON string

Double quotes, backslashes and control characters are escaped, five common control characters by a letter and the
others by their number; every other character stands for itself.
-/

namespace LineCheck.Text

/-- How a character is written inside a JSON string. -/
def escape (c : Char) : List Char :=
  if c = '"' then ['\\', '"']
  else if c = '\\' then ['\\', '\\']
  else if c = '\x08' then ['\\', 'b']
  else if c = '\x0c' then ['\\', 'f']
  else if c = '\n' then ['\\', 'n']
  else if c = '\r' then ['\\', 'r']
  else if c = '\t' then ['\\', 't']
  else if c.toNat < 0x20 then ['\\', 'u', '0', '0', Nat.digitChar (c.toNat / 16), Nat.digitChar (c.toNat % 16)]
  else [c]

/-- The text between double quotes, with its characters escaped. -/
def quote (text : String) : String :=
  String.ofList ('"' :: (text.toList.flatMap escape ++ ['"']))

example : quote "a\"b" = "\"a\\\"b\"" := by decide +kernel

example : quote "\x01\t\x1f" = "\"\\u0001\\t\\u001f\"" := by decide +kernel

end LineCheck.Text
