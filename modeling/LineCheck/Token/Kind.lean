import LineCheck.Ty

/-!
# LineCheck.Token.Kind — what a token can be

Words of the language, its symbols, names, literals, text that is none of these, and the end of the line.  Each kind
has a label for messages: words and symbols are shown as they are written, the other kinds by a name.  The words are
pairwise different (`Keyword.word_injective`), so looking a word up undoes writing it (`Keyword.ofWord?_eq_some_iff`).
-/

namespace LineCheck

/-- The word before a condition. -/
inductive GuardWord where
  | ifWord
  | whileWord
  deriving DecidableEq, Repr, Inhabited

/-- A reserved word. -/
inductive Keyword where
  | type (ty : Ty)
  | void
  | final
  | guard (word : GuardWord)
  | return
  | truth (value : Bool)
  deriving DecidableEq, Repr

/-- A symbol of one or two characters. -/
inductive Symbol where
  | leftParen
  | rightParen
  | leftBrace
  | rightBrace
  | comma
  | semicolon
  | assign
  | and
  | or
  deriving DecidableEq, Repr

/-- The kind of a token. -/
inductive TokenKind where
  | endOfLine
  | invalid
  | identifier
  | integer
  | double
  | string
  | char
  | keyword (word : Keyword)
  | symbol (sign : Symbol)
  deriving DecidableEq, Repr

namespace GuardWord

/-- The spelling of the word. -/
def word : GuardWord → String
  | ifWord => "if"
  | whileWord => "while"

end GuardWord

namespace Keyword

/-- The spelling of the word. -/
def word : Keyword → String
  | type ty => ty.word
  | void => "void"
  | final => "final"
  | guard g => g.word
  | .return => "return"
  | truth true => "true"
  | truth false => "false"

/-- All reserved words. -/
def all : List Keyword :=
  [type .int, type .double, type .boolean, type .char, type .string, void, final, guard .ifWord, guard .whileWord,
    .return, truth true, truth false]

/-- The reserved word with this spelling. -/
def ofWord? (text : String) : Option Keyword :=
  all.find? fun k => k.word == text

theorem mem_all (k : Keyword) : k ∈ all := by
  cases k with
  | type ty => cases ty <;> decide
  | guard g => cases g <;> decide
  | truth b => cases b <;> decide
  | _ => decide

theorem ofWord?_word (k : Keyword) : ofWord? k.word = some k := by
  cases k with
  | type ty => cases ty <;> decide +kernel
  | guard g => cases g <;> decide +kernel
  | truth b => cases b <;> decide +kernel
  | _ => decide +kernel

theorem ofWord?_eq_some_iff {text : String} {k : Keyword} : ofWord? text = some k ↔ k.word = text := by
  constructor
  · intro h
    simpa using List.find?_some h
  · rintro rfl
    exact ofWord?_word k

theorem word_injective {a b : Keyword} (h : a.word = b.word) : a = b :=
  Option.some.inj ((ofWord?_word a).symm.trans (h ▸ ofWord?_word b))

end Keyword

namespace Symbol

/-- The spelling of the symbol. -/
def text : Symbol → String
  | leftParen => "("
  | rightParen => ")"
  | leftBrace => "\x7b"
  | rightBrace => "\x7d"
  | comma => ","
  | semicolon => ";"
  | assign => "="
  | and => "&&"
  | or => "||"

end Symbol

namespace TokenKind

/-- How a message names the kind. -/
def label : TokenKind → String
  | endOfLine => "end of line"
  | invalid => "error"
  | identifier => "Identifier"
  | integer => "Integer"
  | double => "Double"
  | string => "StringLiteral"
  | char => "CharLiteral"
  | keyword k => k.word
  | symbol s => s.text

/-- The type that a type word stands for. -/
def type? : TokenKind → Option Ty
  | keyword (.type ty) => some ty
  | _ => none

/-- The kind is a word that names a type. -/
def isType (k : TokenKind) : Bool :=
  k.type?.isSome

/-- The kind of a word: reserved or a name. -/
def ofWord (text : String) : TokenKind :=
  (Keyword.ofWord? text).elim identifier keyword

end TokenKind

end LineCheck
