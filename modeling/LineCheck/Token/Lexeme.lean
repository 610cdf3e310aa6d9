import LineCheck.Token.Kind

/-!
# LineCheck.Token.Lexeme — the first token of a text

`Lexeme.read` cuts one token off the front of a text that does not start with a gap:

* a number, with an optional sign directly before it, a `double` as soon as it has a point;
* a word, reserved or a name;
* a string up to the next double quote, a character literal with at most one character between its quotes;
* a symbol;
* anything else is invalid: all the rest after a double quote that is never closed, a quote with the character behind
  it when no character literal starts there, and otherwise a single character.

Nothing is lost (`read_text_append_rest`), and something is always taken (`read_rest_length`).
-/

namespace LineCheck

/-- A token cut off the front of a text, with the text behind it. -/
structure Lexeme where
  kind : TokenKind
  text : List Char
  rest : List Char
  deriving DecidableEq, Repr

namespace Lexeme

/-- The same token with one more character in front. -/
def cons (c : Char) (l : Lexeme) : Lexeme :=
  { l with text := c :: l.text }

/-! ### Numbers -/

/-- A sign that may stand before a number. -/
def isSign (c : Char) : Bool :=
  c == '+' || c == '-'

/-- The text starts with a digit, or with a point and a digit. -/
def startsUnsigned : List Char → Bool
  | '.' :: d :: _ => d.isDigit
  | c :: _ => c.isDigit
  | [] => false

/-- The text starts with a number. -/
def startsNumber : List Char → Bool
  | c :: cs => startsUnsigned (c :: cs) || isSign c && startsUnsigned cs
  | [] => false

/-- Digits, and if a point follows them, the point and the digits after it. -/
def unsigned (cs : List Char) : Lexeme :=
  match cs.dropWhile Char.isDigit with
  | '.' :: rest =>
    ⟨.double, cs.takeWhile Char.isDigit ++ '.' :: rest.takeWhile Char.isDigit, rest.dropWhile Char.isDigit⟩
  | rest => ⟨.integer, cs.takeWhile Char.isDigit, rest⟩

/-- An unsigned number with or without a sign before it. -/
def number (c : Char) (cs : List Char) : Lexeme :=
  if isSign c then (unsigned cs).cons c else unsigned (c :: cs)

/-! ### Words and quoted literals -/

/-- A character that a word may start with. -/
def isWordStart (c : Char) : Bool :=
  c.isAlpha || c == '_'

/-- A character that a word may go on with. -/
def isWordChar (c : Char) : Bool :=
  c.isAlphanum || c == '_'

/-- The word that starts with `c`. -/
def word (c : Char) (cs : List Char) : Lexeme :=
  let text := c :: cs.takeWhile isWordChar
  ⟨.ofWord (String.ofList text), text, cs.dropWhile isWordChar⟩

/-- The string whose opening quote stands before `cs`; there are no escapes. -/
def quoted (cs : List Char) : Lexeme :=
  match cs.dropWhile (· != '"') with
  | q :: rest => ⟨.string, '"' :: (cs.takeWhile (· != '"') ++ [q]), rest⟩
  | [] => ⟨.invalid, '"' :: cs, []⟩

/-- The character literal whose opening quote stands before `cs`; it may be empty. -/
def character : List Char → Lexeme
  | '\'' :: rest => ⟨.char, ['\'', '\''], rest⟩
  | c :: '\'' :: rest => ⟨.char, ['\'', c, '\''], rest⟩
  | c :: rest => ⟨.invalid, ['\'', c], rest⟩
  | [] => ⟨.invalid, ['\''], []⟩

/-! ### All kinds together -/

/-- The symbol of one character, and the start of a symbol of two. -/
def sign : Char → List Char → Lexeme
  | '(', rest => ⟨.symbol .leftParen, ['('], rest⟩
  | ')', rest => ⟨.symbol .rightParen, [')'], rest⟩
  | '{', rest => ⟨.symbol .leftBrace, ['{'], rest⟩
  | '}', rest => ⟨.symbol .rightBrace, ['}'], rest⟩
  | ',', rest => ⟨.symbol .comma, [','], rest⟩
  | ';', rest => ⟨.symbol .semicolon, [';'], rest⟩
  | '=', rest => ⟨.symbol .assign, ['='], rest⟩
  | '&', '&' :: rest => ⟨.symbol .and, ['&', '&'], rest⟩
  | '|', '|' :: rest => ⟨.symbol .or, ['|', '|'], rest⟩
  | c, rest => ⟨.invalid, [c], rest⟩

/-- The first token of the text `c :: cs`, where `c` is no gap. -/
def read (c : Char) (cs : List Char) : Lexeme :=
  if startsNumber (c :: cs) then number c cs
  else if isWordStart c then word c cs
  else if c = '"' then quoted cs
  else if c = '\'' then character cs
  else sign c cs

/-! ### Nothing is lost and something is taken -/

theorem unsigned_text_append_rest (cs : List Char) : (unsigned cs).text ++ (unsigned cs).rest = cs := by
  have hcs := List.takeWhile_append_dropWhile (p := Char.isDigit) (l := cs)
  unfold unsigned
  split
  · next rest h => rw [h] at hcs; simpa using hcs
  · exact hcs

theorem number_text_append_rest (c : Char) (cs : List Char) : (number c cs).text ++ (number c cs).rest = c :: cs := by
  unfold number
  split
  · simp [cons, unsigned_text_append_rest]
  · exact unsigned_text_append_rest _

theorem word_text_append_rest (c : Char) (cs : List Char) : (word c cs).text ++ (word c cs).rest = c :: cs := by
  simp [word]

theorem quoted_text_append_rest (cs : List Char) : (quoted cs).text ++ (quoted cs).rest = '"' :: cs := by
  have hcs := List.takeWhile_append_dropWhile (p := (· != '"')) (l := cs)
  unfold quoted
  split
  · next q rest h => rw [h] at hcs; simpa using hcs
  · simp

theorem character_text_append_rest (cs : List Char) : (character cs).text ++ (character cs).rest = '\'' :: cs := by
  unfold character
  split <;> rfl

theorem sign_text_append_rest (c : Char) (cs : List Char) : (sign c cs).text ++ (sign c cs).rest = c :: cs := by
  unfold sign
  split <;> rfl

/-- The token and what follows it make up the text. -/
theorem read_text_append_rest (c : Char) (cs : List Char) : (read c cs).text ++ (read c cs).rest = c :: cs := by
  unfold read
  split
  · exact number_text_append_rest c cs
  · split
    · exact word_text_append_rest c cs
    · split
      · next h => rw [h]; exact quoted_text_append_rest cs
      · split
        · next h => rw [h]; exact character_text_append_rest cs
        · exact sign_text_append_rest c cs

theorem unsigned_text_ne_nil {cs : List Char} (h : startsUnsigned cs = true) : (unsigned cs).text ≠ [] := by
  unfold unsigned
  split
  · simp
  · next hno =>
    -- the text starts with a digit, for a point would have made it a double
    cases cs with
    | nil => simp [startsUnsigned] at h
    | cons c cs =>
      by_cases hc : c.isDigit = true
      · simp [hc]
      · have hdrop : (c :: cs).dropWhile Char.isDigit = c :: cs := by simp [hc]
        by_cases hpoint : c = '.'
        · exact absurd (hpoint ▸ hdrop) (hno cs)
        · cases cs with
          | nil => simp [startsUnsigned, hc] at h
          | cons d ds => simp [startsUnsigned, hpoint, hc] at h

/-- A token is never empty. -/
theorem read_text_ne_nil (c : Char) (cs : List Char) : (read c cs).text ≠ [] := by
  unfold read
  split
  · next h =>
    unfold number
    split
    · simp [cons]
    · next hsign => exact unsigned_text_ne_nil (by simpa [startsNumber, hsign] using h)
  · split
    · simp [word]
    · split
      · unfold quoted; split <;> simp
      · split
        · unfold character; split <;> simp
        · unfold sign; split <;> simp

/-- What follows a token is shorter than the text. -/
theorem read_rest_length (c : Char) (cs : List Char) : (read c cs).rest.length ≤ cs.length := by
  have hlen := congrArg List.length (read_text_append_rest c cs)
  have hpos := List.length_pos_iff.mpr (read_text_ne_nil c cs)
  simp only [List.length_append, List.length_cons] at hlen
  omega

end Lexeme

end LineCheck
