import LineCheck.Proofs.Token.Braces
import LineCheck.Proofs.Token.Language
import LineCheck.Syntax.Name
import LineCheck.Syntax.Statement

/-!
# LineCheck.Proofs.Syntax.Spelling — the tokens that a statement is made of

`Statement.spelling` writes a statement as the kinds and texts of its tokens.  `Statement.WellFormed` says which
statements can be written so that they are read back: the lists are not empty, final variables have a value, operands
are no quoted literals, and the names follow the two rules for names.  Only a header holds an opening brace and only
the end of a block a closing one (`Weighs.statement`).
-/

namespace LineCheck

open Text

/-! ### Tokens without their places -/

/-- The kind and the text of a token, wherever it stands. -/
structure TokenForm where
  kind : TokenKind
  text : String
  deriving DecidableEq, Repr

namespace TokenForm

/-- A reserved word. -/
def word (k : Keyword) : TokenForm :=
  ⟨.keyword k, k.word⟩

/-- A symbol. -/
def sign (s : Symbol) : TokenForm :=
  ⟨.symbol s, s.text⟩

/-- A name. -/
def name (n : String) : TokenForm :=
  ⟨.identifier, n⟩

/-- The end of a line, wherever it is. -/
def endOfLine : TokenForm :=
  ⟨.endOfLine, ""⟩

end TokenForm

/-- The token without its place. -/
def Token.form (t : Token) : TokenForm :=
  ⟨t.kind, t.text⟩

/-- The tokens of a line without their places. -/
def TokenLine.forms (l : TokenLine) : List TokenForm :=
  l.tokens.map Token.form

/-- All tokens of a line without their places, the one at its end included. -/
def TokenLine.allForms (l : TokenLine) : List TokenForm :=
  l.toList.map Token.form

theorem TokenLine.allForms_eq (l : TokenLine) : l.allForms = l.forms ++ [.endOfLine] := by
  rw [allForms, toList, List.map_append]
  rfl

/-! ### Names -/

/-- A word that looks up nothing is not reserved. -/
theorem Keyword.word_ne_of_ofWord? {text : String} (h : Keyword.ofWord? text = none) (k : Keyword) :
    k.word ≠ text := by
  intro hk
  rw [Keyword.ofWord?_eq_some_iff.mpr hk] at h
  cases h

/-- A letter, then letters, digits and underscores: a name for functions, unless it is reserved. -/
def FunctionName (word : String) : Prop :=
  (∃ c cs, word.toList = c :: cs ∧ c.isAlpha = true ∧ ∀ d ∈ cs, Lexeme.isWordChar d = true) ∧
    ∀ k : Keyword, k.word ≠ word

/-- As for functions, or an underscore before a letter or digit: a name for variables, unless it is reserved. -/
def VariableName (word : String) : Prop :=
  ((∃ c cs, word.toList = c :: cs ∧ c.isAlpha = true ∧ ∀ d ∈ cs, Lexeme.isWordChar d = true) ∨
      ∃ c cs, word.toList = '_' :: c :: cs ∧ c.isAlphanum = true ∧ ∀ d ∈ cs, Lexeme.isWordChar d = true) ∧
    ∀ k : Keyword, k.word ≠ word

theorem variableName_of_isVariableName {word : String} (hword : TokenKind.identifier.Admits word.toList)
    (h : isVariableName word = true) : VariableName word := by
  obtain ⟨⟨c, cs, htext, -, hcs⟩, hfree⟩ := hword
  refine ⟨?_, fun k hk => hfree k (congrArg String.toList hk)⟩
  unfold isVariableName at h
  rw [htext] at h ⊢
  split at h
  · next d ds heq =>
    obtain ⟨rfl, rfl⟩ := List.cons.inj heq
    exact .inr ⟨d, ds, rfl, h, fun e he => hcs e (List.mem_cons_of_mem d he)⟩
  · next heq =>
    obtain ⟨rfl, rfl⟩ := List.cons.inj heq
    exact .inl ⟨c, cs, rfl, h, hcs⟩
  · next heq => cases heq

theorem functionName_of_isFunctionName {word : String} (hword : TokenKind.identifier.Admits word.toList)
    (h : isFunctionName word = true) : FunctionName word := by
  obtain ⟨⟨c, cs, htext, -, hcs⟩, hfree⟩ := hword
  refine ⟨⟨c, cs, htext, ?_, hcs⟩, fun k hk => hfree k (congrArg String.toList hk)⟩
  unfold isFunctionName at h
  rwa [htext] at h

namespace FunctionName

variable {word : String}

theorem isFunctionName (h : FunctionName word) : isFunctionName word = true := by
  obtain ⟨⟨c, cs, htext, hc, -⟩, -⟩ := h
  unfold LineCheck.isFunctionName
  rwa [htext]

/-- A name for functions is one for variables too. -/
theorem variableName (h : FunctionName word) : VariableName word :=
  ⟨.inl h.1, h.2⟩

end FunctionName

namespace VariableName

variable {word : String}

theorem isVariableName (h : VariableName word) : isVariableName word = true := by
  obtain ⟨⟨c, cs, htext, hc, hcs⟩ | ⟨c, cs, htext, hc, -⟩, hfree⟩ := h
  · exact isVariableName_of_isFunctionName (FunctionName.isFunctionName ⟨⟨c, cs, htext, hc, hcs⟩, hfree⟩)
  · unfold LineCheck.isVariableName
    rwa [htext]

/-- A name is a word that is not reserved. -/
theorem admits (h : VariableName word) : TokenKind.identifier.Admits word.toList := by
  obtain ⟨hshape, hfree⟩ := h
  refine ⟨?_, fun k hk => hfree k (String.toList_injective hk)⟩
  obtain ⟨c, cs, htext, hc, hcs⟩ | ⟨c, cs, htext, hc, hcs⟩ := hshape
  · exact ⟨c, cs, htext, by simp [Lexeme.isWordStart, hc], hcs⟩
  · refine ⟨'_', c :: cs, htext, rfl, fun d hd => ?_⟩
    rcases List.mem_cons.mp hd with rfl | hd
    · simp [Lexeme.isWordChar, hc]
    · exact hcs d hd

end VariableName

/-! ### Statements as tokens -/

/-- The kind of the one token that a value is. -/
def Value.tokenKind : Value → TokenKind
  | literal (.int _) => .integer
  | literal (.double _) => .double
  | literal (.boolean b) => .keyword (.truth b)
  | literal (.char _) => .char
  | literal (.string _) => .string
  | name _ => .identifier

/-- The token that a value is. -/
def Value.form (v : Value) : TokenForm :=
  ⟨v.tokenKind, v.text⟩

theorem Value.tokenKind_ne_symbol (v : Value) (s : Symbol) : v.tokenKind ≠ .symbol s := by
  rcases v with (raw | raw | b | raw | raw) | x <;> exact nofun

/-- A truth value is a reserved word. -/
theorem Value.form_boolean (b : Bool) : (literal (.boolean b)).form = .word (.truth b) := by
  cases b <;> rfl

/-- The symbol between two operands. -/
def Connective.symbol : Connective → Symbol
  | and => .and
  | or => .or

/-- Several items with a comma before each but the first. -/
def commaSpelling {α : Type} (spell : α → List TokenForm) : List α → List TokenForm
  | [] => []
  | a :: as => spell a ++ as.flatMap fun b => .sign .comma :: spell b

/-- The mark of a final variable. -/
def finalSpelling (isFinal : Bool) : List TokenForm :=
  if isFinal then [.word .final] else []

def Declarator.spelling (d : Declarator) : List TokenForm :=
  .name d.name :: d.init.elim [] fun v => [.sign .assign, v.form]

def Assignment.spelling (a : Assignment) : List TokenForm :=
  [.name a.name, .sign .assign, a.value.form]

def Param.spelling (p : Param) : List TokenForm :=
  finalSpelling p.isFinal ++ [.word (.type p.ty), .name p.name]

def Declaration.spelling (d : Declaration) : List TokenForm :=
  finalSpelling d.isFinal ++
    .word (.type d.ty) :: (commaSpelling Declarator.spelling d.declarators ++ [.sign .semicolon])

/-- Items in parentheses. -/
def parenthesisedSpelling {α : Type} (spell : α → List TokenForm) (items : List α) : List TokenForm :=
  .sign .leftParen :: (commaSpelling spell items ++ [.sign .rightParen])

def Header.spelling (h : Header) : List TokenForm :=
  .word .void :: .name h.name :: (parenthesisedSpelling Param.spelling h.params ++ [.sign .leftBrace])

def Call.spelling (c : Call) : List TokenForm :=
  .name c.name :: (parenthesisedSpelling (fun v => [v.form]) c.args ++ [.sign .semicolon])

def Condition.spelling (c : Condition) : List TokenForm :=
  .sign .leftParen :: c.first.form ::
    (c.rest.flatMap (fun link => [.sign link.1.symbol, link.2.form]) ++ [.sign .rightParen, .sign .leftBrace])

/-- The tokens of a statement; a blank line has none and a comment is not cut into tokens. -/
def Statement.spelling : Statement → List TokenForm
  | blank => []
  | comment => []
  | declaration d => d.spelling
  | assignment as => commaSpelling Assignment.spelling as ++ [.sign .semicolon]
  | function h => h.spelling
  | call c => c.spelling
  | guard w c => .word (.guard w) :: c.spelling
  | .return => [.word .return, .sign .semicolon]
  | closeBrace => [.sign .rightBrace]

/-! ### Statements that can be written -/

/-- A name in the place of a value is the name of a variable. -/
def Value.WellFormed : Value → Prop
  | name n => VariableName n
  | literal _ => True

/-- A value that may stand in a condition: no string and no character. -/
def Value.IsOperand (v : Value) : Prop :=
  v.WellFormed ∧ ∀ raw, v ≠ .literal (.string raw) ∧ v ≠ .literal (.char raw)

/-- Every final variable has a first value. -/
def Declarator.WellFormed (isFinal : Bool) (d : Declarator) : Prop :=
  VariableName d.name ∧ (∀ v ∈ d.init, v.WellFormed) ∧ (isFinal = true → d.init.isSome = true)

def Assignment.WellFormed (a : Assignment) : Prop :=
  VariableName a.name ∧ a.value.WellFormed

/-- The lists are not empty where there has to be an item, and the names are such names; blank lines and comments are
not made of tokens. -/
def Statement.WellFormed : Statement → Prop
  | blank => False
  | comment => False
  | declaration d => d.declarators ≠ [] ∧ ∀ x ∈ d.declarators, x.WellFormed d.isFinal
  | assignment as => as ≠ [] ∧ ∀ a ∈ as, a.WellFormed
  | function h => FunctionName h.name ∧ ∀ p ∈ h.params, VariableName p.name
  | call c => FunctionName c.name ∧ ∀ v ∈ c.args, v.WellFormed
  | guard _ c => ∀ v ∈ c.operands, v.IsOperand
  | .return => True
  | closeBrace => True

/-! ### The braces of a statement -/

/-- What a line with this statement adds to the number of open braces. -/
def Statement.braces : Statement → Int
  | function _ => 1
  | guard _ _ => 1
  | closeBrace => -1
  | _ => 0

/-- None of the tokens is invalid, and together they add `n` to the number of open braces. -/
def Weighs (n : Int) (fs : List TokenForm) : Prop :=
  (∀ f ∈ fs, f.kind ≠ .invalid) ∧ TokenKind.bracesOf (fs.map TokenForm.kind) = n

namespace Weighs

variable {m n : Int} {fs gs : List TokenForm}

theorem nil : Weighs 0 [] :=
  ⟨fun _ hf => absurd hf List.not_mem_nil, rfl⟩

theorem append (hf : Weighs m fs) (hg : Weighs n gs) : Weighs (m + n) (fs ++ gs) := by
  refine ⟨fun f hmem => ?_, by rw [List.map_append, TokenKind.bracesOf_append, hf.2, hg.2]⟩
  rcases List.mem_append.mp hmem with hmem | hmem
  · exact hf.1 f hmem
  · exact hg.1 f hmem

/-- A valid token that is no brace changes nothing. -/
theorem cons {f : TokenForm} (hvalid : f.kind ≠ .invalid) (hzero : f.kind.braces = 0) (hg : Weighs n gs) :
    Weighs n (f :: gs) := by
  refine ⟨fun g hmem => ?_, by rw [List.map_cons, TokenKind.bracesOf, hzero, hg.2, Int.zero_add]⟩
  rcases List.mem_cons.mp hmem with rfl | hmem
  · exact hvalid
  · exact hg.1 g hmem

theorem word (k : Keyword) (hg : Weighs n gs) : Weighs n (.word k :: gs) :=
  .cons (by simp [TokenForm.word]) rfl hg

theorem name (x : String) (hg : Weighs n gs) : Weighs n (.name x :: gs) :=
  .cons (by simp [TokenForm.name]) rfl hg

theorem value (v : Value) (hg : Weighs n gs) : Weighs n (v.form :: gs) := by
  rcases v with (raw | raw | b | raw | raw) | x <;> exact .cons (by simp [Value.form, Value.tokenKind]) rfl hg

/-- A symbol adds what it adds. -/
theorem sign (s : Symbol) (hg : Weighs n gs) : Weighs ((TokenKind.symbol s).braces + n) (.sign s :: gs) := by
  refine ⟨fun g hmem => ?_, by rw [List.map_cons, TokenKind.bracesOf, hg.2]; rfl⟩
  rcases List.mem_cons.mp hmem with rfl | hmem
  · simp [TokenForm.sign]
  · exact hg.1 g hmem

theorem flatMap {α : Type} {spell : α → List TokenForm} (h : ∀ a, Weighs 0 (spell a)) (as : List α) :
    Weighs 0 (as.flatMap spell) := by
  induction as with
  | nil => exact nil
  | cons a as ih => exact (h a).append ih

theorem commaSpelling {α : Type} {spell : α → List TokenForm} (h : ∀ a, Weighs 0 (spell a)) (as : List α) :
    Weighs 0 (commaSpelling spell as) := by
  cases as with
  | nil => exact nil
  | cons a as => exact (h a).append (flatMap (fun b => .sign .comma (h b)) as)

theorem finalSpelling (isFinal : Bool) : Weighs 0 (finalSpelling isFinal) := by
  cases isFinal
  · exact nil
  · exact .word .final nil

theorem parenthesisedSpelling {α : Type} {spell : α → List TokenForm} (h : ∀ a, Weighs 0 (spell a)) (as : List α) :
    Weighs 0 (parenthesisedSpelling spell as) :=
  .sign .leftParen ((commaSpelling h as).append (.sign .rightParen nil))

theorem declarator (d : Declarator) : Weighs 0 d.spelling := by
  obtain ⟨x, init⟩ := d
  cases init with
  | none => exact .name x nil
  | some v => exact .name x (.sign .assign (.value v nil))

theorem assignment (a : Assignment) : Weighs 0 a.spelling :=
  .name a.name (.sign .assign (.value a.value nil))

theorem param (p : Param) : Weighs 0 p.spelling :=
  (finalSpelling p.isFinal).append (.word (.type p.ty) (.name p.name nil))

theorem condition (c : Condition) : Weighs 1 c.spelling := by
  have hlink : ∀ link : Connective × Value, Weighs 0 [.sign link.1.symbol, link.2.form] := by
    rintro ⟨j, v⟩
    cases j
    · exact .sign .and (.value v nil)
    · exact .sign .or (.value v nil)
  have hopen : Weighs 1 [.sign .rightParen, .sign .leftBrace] := .sign .rightParen (.sign .leftBrace nil)
  exact .sign .leftParen (.value c.first ((flatMap hlink c.rest).append hopen))

/-- The tokens of a statement are valid, and their braces are those of the statement. -/
theorem statement (s : Statement) : Weighs s.braces s.spelling := by
  have hsemicolon : Weighs 0 [.sign .semicolon] := .sign .semicolon nil
  cases s with
  | blank => exact nil
  | comment => exact nil
  | declaration d =>
    exact (finalSpelling d.isFinal).append
      (.word (.type d.ty) ((commaSpelling declarator d.declarators).append hsemicolon))
  | assignment as => exact (commaSpelling assignment as).append hsemicolon
  | function h =>
    exact .word .void (.name h.name ((parenthesisedSpelling param h.params).append (.sign .leftBrace nil)))
  | call c =>
    exact .name c.name ((parenthesisedSpelling (fun v => .value v nil) c.args).append hsemicolon)
  | guard w c => exact .word (.guard w) (condition c)
  | «return» => exact .word .return hsemicolon
  | closeBrace => exact .sign .rightBrace nil

end Weighs

end LineCheck
