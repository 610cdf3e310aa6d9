import LineCheck.Syntax.Grammar

/-!
# LineCheck.Syntax.Cursor — a place among the tokens of a line

A cursor holds the tokens of a line and a position, which is never behind the end token (`position_le`).  It looks at
the token there or at a later one, moves on by single tokens, and parses a statement from where it stands.  Positions
are 64-bit words, so a look ahead fails where its index would be none (`LookFault`).
-/

namespace LineCheck

/-- A place among the tokens of a line. -/
structure Cursor where
  text : String
  line : TokenLine
  position : Nat
  position_le : position ≤ line.tokens.length

/-- Why a token cannot be looked at. -/
inductive LookFault where
  /-- The index of the token does not fit a word. -/
  | overflow
  deriving DecidableEq, Repr

/-- How the fault is reported. -/
def LookFault.text : LookFault → String
  | overflow => "attempt to add with overflow"

namespace Cursor

/-- The start of a line. -/
def ofString (text : String) : Cursor :=
  ⟨text, .ofString text, 0, Nat.zero_le _⟩

/-! ### Looking -/

/-- The token at an index, the end token from the end of the line on. -/
def tokenAt (c : Cursor) (index : Nat) : Token :=
  c.line.tokens[index]?.getD c.line.last

/-- The token that stands `ahead` places after the position, whose index has to be a word. -/
def peekAt (c : Cursor) (ahead : UInt64) : Except LookFault Token :=
  if c.position + ahead.toNat < UInt64.size then .ok (c.tokenAt (c.position + ahead.toNat)) else .error .overflow

/-- The token at the position. -/
def peek (c : Cursor) : Token :=
  c.tokenAt c.position

/-- The token at the position has this kind. -/
def check (c : Cursor) (kind : TokenKind) : Bool :=
  c.peek.kind = kind

/-- The token that stands `ahead` places after the position has this kind. -/
def checkAt (c : Cursor) (ahead : UInt64) (kind : TokenKind) : Except LookFault Bool :=
  (c.peekAt ahead).map (·.kind = kind)

/-- The part of the line that a span covers. -/
def textOf (c : Cursor) (span : Span) : String :=
  span.slice c.text

/-- The error at the position. -/
def unexpected (c : Cursor) (expected : Expected) : ParseError :=
  .atToken expected c.peek

/-! ### Moving -/

/-- A token that is not the end of the line has the end behind it. -/
theorem position_lt_of_kind_ne {c : Cursor} (h : c.peek.kind ≠ .endOfLine) : c.position < c.line.tokens.length := by
  refine Nat.lt_of_not_ge fun hge => h ?_
  rw [peek, tokenAt, List.getElem?_eq_none hge]
  rfl

/-- One token on, unless the end of the line is there. -/
def advance (c : Cursor) : Cursor :=
  if h : c.peek.kind ≠ .endOfLine then
    { c with position := c.position + 1, position_le := position_lt_of_kind_ne h }
  else c

/-- Take the token at the position if it has this kind. -/
def consume (c : Cursor) (kind : TokenKind) : Option Token × Cursor :=
  if c.check kind then (some c.peek, c.advance) else (none, c)

/-- Take the token at the position, which has to have this kind. -/
def expect (c : Cursor) (kind : TokenKind) : Except ParseError Token × Cursor :=
  match c.consume kind with
  | (some t, next) => (.ok t, next)
  | (none, _) => (.error (c.unexpected (.kind kind)), c)

/-- Take the token at the position if it has one of these kinds. -/
def matchAny (c : Cursor) (kinds : List TokenKind) : Bool × Cursor :=
  if kinds.any c.check then (true, c.advance) else (false, c)

/-- The tokens from the position on. -/
def rest (c : Cursor) : List Token :=
  c.line.tokens.drop c.position

/-- Parse with the tokens from the position on, and stand where the parser stopped. -/
def parse {α : Type} (c : Cursor) (p : TokenParser α) : Except ParseError α × Cursor :=
  let (result, left) := p.run c.rest
  let next := { c with position := c.line.tokens.length - left.length, position_le := Nat.sub_le _ _ }
  (result.mapError next.unexpected, next)

/-- Parse a statement that takes up the rest of the line. -/
def parseLine (c : Cursor) : Except ParseError Statement × Cursor :=
  c.parse Grammar.line

/-! ### Where a cursor stands -/

theorem length_rest (c : Cursor) : c.rest.length = c.line.tokens.length - c.position := by
  simp [rest]

/-- The token at the position is the first of the rest. -/
theorem peek_eq (c : Cursor) : c.peek = c.rest.head?.getD c.line.last := by
  simp [peek, tokenAt, rest, List.head?_drop]

/-- Every index shows a token of the line, those behind it the last one. -/
theorem getElem?_tokenAt (c : Cursor) (index : Nat) :
    c.line.toList[min index c.line.tokens.length]? = some (c.tokenAt index) := by
  rw [tokenAt, TokenLine.toList]
  rcases Nat.lt_or_ge index c.line.tokens.length with hlt | hge
  · rw [Nat.min_eq_left (Nat.le_of_lt hlt), List.getElem?_append_left hlt, List.getElem?_eq_getElem hlt]
    rfl
  · rw [Nat.min_eq_right hge, List.getElem?_append_right (Nat.le_refl _), Nat.sub_self, List.getElem?_eq_none hge]
    rfl

theorem tokenAt_eq (c : Cursor) (index : Nat) : c.tokenAt index = c.line.toList[index]?.getD c.line.last := by
  rcases Nat.lt_or_ge c.line.tokens.length index with hgt | hle
  · have hlength : c.line.toList.length ≤ index := by
      rw [TokenLine.toList, List.length_append]
      exact hgt
    rw [tokenAt, List.getElem?_eq_none (Nat.le_of_lt hgt), List.getElem?_eq_none hlength]
  · have htoken := c.getElem?_tokenAt index
    rw [Nat.min_eq_left hle] at htoken
    rw [htoken]
    rfl

/-- The token at the position is on the line, or it is the end of it. -/
theorem getElem?_position (c : Cursor) : c.line.toList[c.position]? = some c.peek := by
  have htoken := c.getElem?_tokenAt c.position
  rwa [Nat.min_eq_left c.position_le] at htoken

theorem position_le_advance (c : Cursor) : c.position ≤ c.advance.position := by
  unfold advance
  split
  · exact Nat.le_succ _
  · exact Nat.le_refl _

/-- Parsing never goes back. -/
theorem position_le_parse {α : Type} (c : Cursor) (p : TokenParser α) : c.position ≤ (c.parse p).2.position := by
  have hle := p.length_run_le c.rest
  have hpos := c.position_le
  rw [length_rest] at hle
  show c.position ≤ c.line.tokens.length - (p.run c.rest).2.length
  omega

/-- What is left after parsing is what the parser left. -/
theorem rest_parse {α : Type} (c : Cursor) (p : TokenParser α) : (c.parse p).2.rest = (p.run c.rest).2 := by
  obtain ⟨before, hbefore⟩ := (p.run_suffix c.rest).trans (List.drop_suffix _ _)
  simp only [parse, rest]
  rw [← rest, ← hbefore, List.length_append, Nat.add_sub_cancel, List.drop_left]

@[simp] theorem rest_ofString (text : String) : (ofString text).rest = (TokenLine.ofString text).tokens := rfl

/-- The result is that of the parser on the tokens that are left, and an error is one at the token where it stopped. -/
theorem parse_fst {α : Type} (c : Cursor) (p : TokenParser α) :
    (c.parse p).1 =
      (p.run c.rest).1.mapError (ParseError.atToken · ((p.run c.rest).2.head?.getD c.line.last)) := by
  show (p.run c.rest).1.mapError (c.parse p).2.unexpected = _
  have hpeek : (c.parse p).2.peek = (p.run c.rest).2.head?.getD c.line.last := by rw [peek_eq, rest_parse]; rfl
  rw [← hpeek]
  rfl

theorem parse_fst_eq_ok_iff {α : Type} {c : Cursor} {p : TokenParser α} {a : α} :
    (c.parse p).1 = .ok a ↔ (p.run c.rest).1 = .ok a := by
  rw [parse_fst]
  cases (p.run c.rest).1 with
  | error e => exact ⟨fun h => (by cases h), fun h => (by cases h)⟩
  | ok b => exact ⟨fun h => (by cases h; rfl), fun h => (by cases h; rfl)⟩

end Cursor

end LineCheck
