import LineCheck.Text.Blank
import LineCheck.Text.Span
import LineCheck.Token.Lexeme

/-!
# LineCheck.Token.Line — a line as a list of tokens

A `Scanner` stands at a byte offset of a line and gives one token after the other: it skips the gap, then cuts off one
lexeme; at the end of the line it gives the end token and stays there.  `Scanner.tokens` collects all tokens before
the end.  A `TokenLine` is the result: those tokens, and the length of the line, which places the end token.
-/

namespace LineCheck

open Text

/-- A token of a line: its kind, where it stands and its characters. -/
structure Token where
  kind : TokenKind
  span : Span
  text : String
  deriving DecidableEq, Repr

namespace Token

/-- The token at the end of a line of `size` bytes. -/
def endOfLine (size : Nat) : Token :=
  ⟨.endOfLine, ⟨size, size, Nat.le_refl size⟩, ""⟩

/-- The token of a lexeme that starts at byte `start`. -/
def ofLexeme (start : Nat) (l : Lexeme) : Token :=
  ⟨l.kind, ⟨start, start + byteLength l.text, Nat.le_add_right _ _⟩, String.ofList l.text⟩

end Token

/-- A place in a line: the bytes before it and the characters behind it. -/
structure Scanner where
  offset : Nat
  rest : List Char
  deriving DecidableEq, Repr

namespace Scanner

/-- The start of a line. -/
def ofString (line : String) : Scanner :=
  ⟨0, line.toList⟩

/-- The place behind the gap that starts here. -/
def skipGap (s : Scanner) : Scanner :=
  ⟨s.offset + byteLength (s.rest.takeWhile isGap), s.rest.dropWhile isGap⟩

/-- The next token and the place behind it, unless the line ends before one. -/
def next? (s : Scanner) : Option (Token × Scanner) :=
  match s.skipGap with
  | ⟨_, []⟩ => none
  | ⟨start, c :: cs⟩ =>
    let l := Lexeme.read c cs
    some (.ofLexeme start l, ⟨start + byteLength l.text, l.rest⟩)

/-- The next token, which is the end token for ever once the line is over. -/
def next (s : Scanner) : Token × Scanner :=
  s.next?.getD (.endOfLine s.skipGap.offset, s.skipGap)

theorem length_dropWhile_le (p : Char → Bool) (cs : List Char) : (cs.dropWhile p).length ≤ cs.length :=
  (List.dropWhile_suffix p).length_le

/-- A token leaves less of the line. -/
theorem length_rest_of_next? {s s' : Scanner} {t : Token} (h : s.next? = some (t, s')) :
    s'.rest.length < s.rest.length := by
  have hgap := length_dropWhile_le isGap s.rest
  unfold next? skipGap at h
  split at h
  · cases h
  · next start c cs hskip =>
    injection hskip with _ hrest
    injection h with h
    injection h with _ hs
    subst hs
    have hread := Lexeme.read_rest_length c cs
    rw [hrest, List.length_cons] at hgap
    exact Nat.lt_of_lt_of_le (Nat.lt_succ_of_le hread) hgap

/-- The tokens from here to the end of the line, without the end token. -/
def tokens (s : Scanner) : List Token :=
  match _h : s.next? with
  | none => []
  | some (t, s') => t :: s'.tokens
termination_by s.rest.length
decreasing_by exact length_rest_of_next? ‹_›

theorem tokens_of_next?_eq_none {s : Scanner} (h : s.next? = none) : s.tokens = [] := by
  rw [tokens]
  split <;> simp_all

theorem tokens_of_next?_eq_some {s s' : Scanner} {t : Token} (h : s.next? = some (t, s')) :
    s.tokens = t :: s'.tokens := by
  rw [tokens]
  split <;> simp_all

/-- The tokens that `count` steps give, the end token included. -/
def run (s : Scanner) : Nat → List Token
  | 0 => []
  | count + 1 => s.next.1 :: s.next.2.run count

end Scanner

/-- The tokens of a line before its end, and the length of the line in bytes. -/
structure TokenLine where
  tokens : List Token
  size : Nat
  deriving DecidableEq, Repr

namespace TokenLine

/-- The tokens of a line. -/
def ofString (line : String) : TokenLine :=
  ⟨(Scanner.ofString line).tokens, byteLength line.toList⟩

/-- The token at the end of the line. -/
def last (l : TokenLine) : Token :=
  .endOfLine l.size

/-- All tokens, the end token last. -/
def toList (l : TokenLine) : List Token :=
  l.tokens ++ [l.last]

/-- The texts of the tokens before the end. -/
def texts (l : TokenLine) : List String :=
  l.tokens.map Token.text

end TokenLine

end LineCheck
