import LineCheck.Proofs.Syntax.Acceptance
import Mathlib.Data.List.Chain

/-!
# LineCheck.Proofs.Syntax.Layout — writing a statement and reading it back

A `Layout` of a list of tokens is a text that has them in order with gaps before, between and after them, where only
two words next to each other have to be kept apart.  In a spelling no number or quoted literal stands beside another or
beside a word (`Loose.statement`), so however it is laid out the scanner cuts off exactly its tokens
(`forms_of_layout`).  Hence a well-formed statement whose literals have the texts of literals is read back from every
layout (`Line.ofText_of_layout`).
-/

namespace LineCheck

open Text Lexeme

/-! ### Layouts -/

namespace TokenForm

/-- A reserved word or a name. -/
def isWord (f : TokenForm) : Bool :=
  match f.kind with
  | .identifier => true
  | .keyword _ => true
  | _ => false

/-- A symbol. -/
def IsSign (f : TokenForm) : Prop :=
  ∃ s, f = .sign s

/-- Two tokens that may stand next to each other: one of them is a symbol, or both are words. -/
def Beside (f g : TokenForm) : Prop :=
  f.IsSign ∨ g.IsSign ∨ f.isWord = true ∧ g.isWord = true

end TokenForm

/-- The text has these tokens in order, with gaps before, between and after them; there is a gap between two words. -/
inductive Layout : List TokenForm → List Char → Prop
  | done (gap : List Char) (hgap : ∀ c ∈ gap, isGap c = true) : Layout [] gap
  | token (gap : List Char) (f : TokenForm) {fs : List TokenForm} {rest : List Char}
      (hgap : ∀ c ∈ gap, isGap c = true)
      (hapart : f.isWord = true → ∀ g ∈ fs.head?, g.isWord = true → ∃ c ∈ rest.head?, isGap c = true)
      (hrest : Layout fs rest) : Layout (f :: fs) (gap ++ (f.text.toList ++ rest))

/-- Tokens that may stand next to each other all along. -/
def Loose (fs : List TokenForm) : Prop :=
  fs.IsChain TokenForm.Beside

/-! ### Characters -/

/-- A printable character that is no slash, as tokens start with. -/
def IsInitial (c : Char) : Prop :=
  33 ≤ c.toNat ∧ c.toNat ≤ 126 ∧ c ≠ '/'

theorem isBlank_of_isInitial {c : Char} (h : IsInitial c) : isBlank c = false := by
  obtain ⟨hlo, hhi, -⟩ := h
  simp only [isBlank, blankRanges, List.any_cons, List.any_nil, Bool.or_false, Bool.or_eq_false_iff,
    Bool.and_eq_false_iff, decide_eq_false_iff_not]
  omega

theorem isGap_of_isInitial {c : Char} (h : IsInitial c) : isGap c = false := by
  rw [Bool.eq_false_iff]
  intro hgap
  have hblank := isBlank_of_isGap hgap
  rw [isBlank_of_isInitial h] at hblank
  cases hblank

/-- Neither a word nor a number goes on with the character. -/
def Ends (c : Char) : Prop :=
  isWordChar c = false ∧ c ≠ '.'

theorem isInitial_of_isDigit {c : Char} (h : c.isDigit = true) : IsInitial c := by
  have hcode := toNat_of_isDigit h
  refine ⟨by omega, by omega, ?_⟩
  rintro rfl
  revert hcode
  decide

theorem isInitial_of_isWordStart {c : Char} (h : isWordStart c = true) : IsInitial c := by
  have hcode := toNat_of_isWordStart h
  refine ⟨by omega, by omega, ?_⟩
  rintro rfl
  revert hcode
  decide

theorem isInitial_of_isSign {c : Char} (h : isSign c = true) : IsInitial c := by
  obtain rfl | rfl := eq_of_isSign h
  · exact ⟨by decide, by decide, by decide⟩
  · exact ⟨by decide, by decide, by decide⟩

theorem ends_of_isGap {c : Char} (h : isGap c = true) : Ends c := by
  have hcode : c.toNat = 32 ∨ 9 ≤ c.toNat ∧ c.toNat ≤ 13 := by
    simp only [isGap, Bool.or_eq_true, beq_iff_eq, Bool.and_eq_true, decide_eq_true_eq] at h
    rcases h with rfl | h
    · exact .inl rfl
    · exact .inr h
  refine ⟨?_, ?_⟩
  · rw [Bool.eq_false_iff]
    intro hword
    simp only [isWordChar, Char.isAlphanum, Bool.or_eq_true, beq_iff_eq] at hword
    rcases hword with (halpha | hdigit) | rfl
    · have hrange := toNat_of_isWordStart (c := c) (by simp [isWordStart, halpha])
      omega
    · have hrange := toNat_of_isDigit hdigit
      omega
    · revert hcode; decide
  · rintro rfl
    revert hcode
    decide

/-- No token goes on behind a character that ends words and numbers. -/
theorem stopsAt_of_ends {rest : List Char} (h : ∀ c ∈ rest.head?, Ends c) (kind : TokenKind) : kind.StopsAt rest := by
  have hdigit : ∀ c ∈ rest.head?, c.isDigit = false := by
    intro c hc
    have hword := (h c hc).1
    simp only [isWordChar, Char.isAlphanum, Bool.or_eq_false_iff] at hword
    exact hword.1.2
  cases kind with
  | identifier => exact fun c hc => (h c hc).1
  | keyword k => exact fun c hc => (h c hc).1
  | integer => exact fun c hc => ⟨hdigit c hc, (h c hc).2⟩
  | double => exact hdigit
  | _ => trivial

/-! ### First characters -/

/-- The text starts with a printable character that is no slash. -/
def Begins (text : List Char) : Prop :=
  ∃ c cs, text = c :: cs ∧ IsInitial c

theorem Lexeme.IsWord.begins {text : List Char} (h : IsWord text) : Begins text := by
  obtain ⟨c, cs, htext, hc, -⟩ := h
  exact ⟨c, cs, htext, isInitial_of_isWordStart hc⟩

theorem Lexeme.IsInteger.begins {text : List Char} (h : IsInteger text) : Begins text := by
  obtain ⟨hne, hdigits⟩ := h
  obtain ⟨c, cs, rfl⟩ := List.exists_cons_of_ne_nil hne
  exact ⟨c, cs, rfl, isInitial_of_isDigit (hdigits c List.mem_cons_self)⟩

theorem Lexeme.IsDecimal.begins {text : List Char} (h : IsDecimal text) : Begins text := by
  obtain ⟨whole, fraction, rfl, hwhole, -, -⟩ := h
  cases whole with
  | nil => exact ⟨'.', fraction, rfl, by decide, by decide, by decide⟩
  | cons c cs => exact ⟨c, _, rfl, isInitial_of_isDigit (hwhole c List.mem_cons_self)⟩

theorem Lexeme.Signed.begins {p : List Char → Prop} (hp : ∀ text, p text → Begins text) {text : List Char}
    (h : Signed p text) : Begins text := by
  obtain htext | ⟨c, cs, htext, hsign, -⟩ := h
  · exact hp text htext
  · exact ⟨c, cs, htext, isInitial_of_isSign hsign⟩

theorem TokenKind.Admits.begins {kind : TokenKind} {text : List Char} (h : kind.Admits text) : Begins text := by
  cases kind with
  | endOfLine => exact h.elim
  | invalid => exact h.elim
  | identifier => exact h.1.begins
  | keyword k => exact IsWord.begins (h ▸ isWord_word k)
  | integer => exact Signed.begins (fun _ => IsInteger.begins) h
  | double => exact Signed.begins (fun _ => IsDecimal.begins) h
  | string =>
    obtain ⟨inside, htext, -⟩ := h
    exact ⟨_, _, htext, by decide, by decide, by decide⟩
  | char =>
    obtain htext | ⟨c, htext, -⟩ := h
    · exact ⟨_, _, htext, by decide, by decide, by decide⟩
    · exact ⟨_, _, htext, by decide, by decide, by decide⟩
  | symbol s => cases s <;> exact ⟨_, _, h, by decide, by decide, by decide⟩

theorem ends_of_sign (s : Symbol) : ∀ c ∈ s.text.toList.head?, Ends c := by
  intro c hc
  cases s <;> cases hc <;> exact ⟨rfl, by decide⟩

/-- A layout starts with a gap or with its first token. -/
theorem Layout.head {fs : List TokenForm} {text : List Char} (h : Layout fs text)
    (hadmits : ∀ f ∈ fs, f.kind.Admits f.text.toList) :
    ∀ c ∈ text.head?, isGap c = true ∨ ∃ f ∈ fs.head?, c ∈ f.text.toList.head? ∧ IsInitial c := by
  intro c hc
  cases h with
  | done gap hgap => exact .inl (hgap c (List.mem_of_mem_head? hc))
  | token gap f hgap hapart hrest =>
    cases gap with
    | cons d gap =>
      cases hc
      exact .inl (hgap c List.mem_cons_self)
    | nil =>
      obtain ⟨d, ds, htext, hd⟩ := (hadmits f List.mem_cons_self).begins
      rw [List.nil_append, htext] at hc
      cases hc
      exact .inr ⟨f, rfl, by rw [htext]; rfl, hd⟩

/-- There is something else than gaps in a layout of a token. -/
theorem Layout.exists_isInitial {fs : List TokenForm} {text : List Char} (h : Layout fs text)
    (hadmits : ∀ f ∈ fs, f.kind.Admits f.text.toList) (hne : fs ≠ []) : ∃ c ∈ text, IsInitial c := by
  cases h with
  | done => exact absurd rfl hne
  | token gap f hgap hapart hrest =>
    obtain ⟨c, cs, htext, hc⟩ := (hadmits f List.mem_cons_self).begins
    exact ⟨c, by simp [htext], hc⟩

/-- A token does not go on into the layout of those behind it. -/
theorem Layout.stopsAt {f : TokenForm} {fs : List TokenForm} {rest : List Char} (h : Layout fs rest)
    (hadmits : ∀ g ∈ fs, g.kind.Admits g.text.toList) (hbeside : ∀ g ∈ fs.head?, f.Beside g)
    (hapart : f.isWord = true → ∀ g ∈ fs.head?, g.isWord = true → ∃ c ∈ rest.head?, isGap c = true) :
    f.kind.StopsAt rest := by
  -- after a symbol anything may follow, and after anything else a gap or a symbol does
  by_cases hsign : f.IsSign
  · obtain ⟨s, rfl⟩ := hsign
    trivial
  · refine stopsAt_of_ends (fun c hc => ?_) f.kind
    rcases h.head hadmits c hc with hgap | ⟨g, hg, hfirst, -⟩
    · exact ends_of_isGap hgap
    · rcases hbeside g hg with hf | ⟨s, rfl⟩ | ⟨hf, hword⟩
      · exact absurd hf hsign
      · exact ends_of_sign s c hfirst
      · obtain ⟨d, hd, hgap⟩ := hapart hf g hg hword
        cases Option.mem_unique hd hc
        exact ends_of_isGap hgap

/-! ### Scanning a layout -/

theorem Scanner.next?_of_dropWhile {s : Scanner} {c : Char} {cs : List Char} (h : s.rest.dropWhile isGap = c :: cs) :
    ∃ t s', s.next? = some (t, s') ∧ t.form = ⟨(read c cs).kind, String.ofList (read c cs).text⟩ ∧
      s'.rest = (read c cs).rest := by
  unfold next? skipGap
  rw [h]
  exact ⟨_, _, rfl, rfl, rfl⟩

/-- A layout of tokens that may stand next to each other is cut into just those tokens. -/
theorem forms_of_layout {fs : List TokenForm} {text : List Char} (h : Layout fs text)
    (hadmits : ∀ f ∈ fs, f.kind.Admits f.text.toList) (hloose : Loose fs) (offset : Nat) :
    (Scanner.tokens ⟨offset, text⟩).map Token.form = fs := by
  induction h generalizing offset with
  | done gap hgap =>
    have hnone : (⟨offset, gap⟩ : Scanner).next? = none := by
      rw [Scanner.next?_eq_none_iff]
      exact List.dropWhile_eq_nil_iff.mpr hgap
    rw [Scanner.tokens_of_next?_eq_none hnone, List.map_nil]
  | @token gap f fs rest hgap hapart hrest ih =>
    have hadmitsRest : ∀ g ∈ fs, g.kind.Admits g.text.toList := fun g hg => hadmits g (List.mem_cons_of_mem f hg)
    obtain ⟨hbeside, hlooseRest⟩ := List.isChain_cons.mp hloose
    have hadmit := hadmits f List.mem_cons_self
    obtain ⟨c, cs, htext, hc⟩ := hadmit.begins
    have hstop : f.kind.StopsAt rest := hrest.stopsAt hadmitsRest hbeside hapart
    rw [htext] at hadmit
    have hread := read_of_admits hadmit hstop
    have hdrop : (gap ++ (f.text.toList ++ rest)).dropWhile isGap = c :: (cs ++ rest) := by
      rw [List.dropWhile_append_of_pos hgap, htext, List.cons_append]
      exact List.dropWhile_cons_of_neg (by rw [isGap_of_isInitial hc]; exact Bool.false_ne_true)
    obtain ⟨t, s', hnext, hform, hs'⟩ :=
      Scanner.next?_of_dropWhile (s := ⟨offset, gap ++ (f.text.toList ++ rest)⟩) hdrop
    rw [hread] at hform hs'
    rw [Scanner.tokens_of_next?_eq_some hnext, List.map_cons, hform]
    have htail := ih hadmitsRest hlooseRest s'.offset
    rw [← show s'.rest = rest from hs'] at htail
    rw [htail, ← htext, String.ofList_toList]

/-! ### What a spelling is made of -/

/-- A literal has a text that the scanner takes for such a literal. -/
def Literal.Shaped : Literal → Prop
  | int raw => Signed IsInteger raw.toList
  | double raw => Signed IsDecimal raw.toList
  | boolean _ => True
  | char raw => raw.toList = ['\'', '\''] ∨ ∃ c, raw.toList = ['\'', c, '\''] ∧ c ≠ '\''
  | string raw => ∃ inside, raw.toList = '"' :: (inside ++ ['"']) ∧ '"' ∉ inside

/-- The values that a statement holds. -/
def Statement.values : Statement → List Value
  | declaration d => d.declarators.filterMap Declarator.init
  | assignment as => as.map Assignment.value
  | call c => c.args
  | guard _ c => c.operands
  | _ => []

section Pieces

variable {P : TokenForm → Prop}

theorem forall_commaSpelling {α : Type} {spell : α → List TokenForm} (hcomma : P (.sign .comma)) {as : List α}
    (h : ∀ a ∈ as, ∀ f ∈ spell a, P f) : ∀ f ∈ commaSpelling spell as, P f := by
  cases as with
  | nil => exact nofun
  | cons a as =>
    intro f hf
    rcases List.mem_append.mp hf with hf | hf
    · exact h a List.mem_cons_self f hf
    · obtain ⟨b, hb, hf⟩ := List.mem_flatMap.mp hf
      rcases List.mem_cons.mp hf with rfl | hf
      · exact hcomma
      · exact h b (List.mem_cons_of_mem a hb) f hf

theorem forall_parenthesisedSpelling {α : Type} {spell : α → List TokenForm} (hsign : ∀ s, P (.sign s)) {as : List α}
    (h : ∀ a ∈ as, ∀ f ∈ spell a, P f) : ∀ f ∈ parenthesisedSpelling spell as, P f := by
  rw [parenthesisedSpelling, List.forall_mem_cons, List.forall_mem_append, List.forall_mem_singleton]
  exact ⟨hsign _, forall_commaSpelling (hsign _) h, hsign _⟩

theorem forall_finalSpelling (hword : ∀ k, P (.word k)) (isFinal : Bool) : ∀ f ∈ finalSpelling isFinal, P f := by
  cases isFinal
  · exact nofun
  · exact List.forall_mem_singleton.mpr (hword _)

/-- Every token of a well-formed statement is a reserved word, a symbol, a name or one of its values. -/
theorem Statement.forall_spelling (hword : ∀ k, P (.word k)) (hsign : ∀ s, P (.sign s))
    (hname : ∀ x, VariableName x → P (.name x)) {s : Statement} (hvalue : ∀ v ∈ s.values, v.WellFormed → P v.form)
    (hs : s.WellFormed) : ∀ f ∈ s.spelling, P f := by
  cases s with
  | blank => exact nofun
  | comment => exact nofun
  | declaration d =>
    have hitem : ∀ x ∈ d.declarators, ∀ f ∈ x.spelling, P f := by
      rintro ⟨x, init⟩ hx
      obtain ⟨hgood, hinit, -⟩ := hs.2 _ hx
      cases init with
      | none => exact List.forall_mem_singleton.mpr (hname x hgood)
      | some v =>
        have hv : v ∈ (Statement.declaration d).values := List.mem_filterMap.mpr ⟨_, hx, rfl⟩
        simp only [Declarator.spelling, Option.elim_some, List.forall_mem_cons]
        exact ⟨hname x hgood, hsign _, hvalue v hv (hinit v rfl), nofun⟩
    simp only [spelling, Declaration.spelling, List.forall_mem_append, List.forall_mem_cons]
    exact ⟨forall_finalSpelling hword _, hword _, forall_commaSpelling (hsign _) hitem, hsign _, nofun⟩
  | assignment as =>
    have hitem : ∀ a ∈ as, ∀ f ∈ a.spelling, P f := by
      intro a ha
      obtain ⟨hgood, hv⟩ := hs.2 a ha
      simp only [Assignment.spelling, List.forall_mem_cons]
      exact ⟨hname _ hgood, hsign _, hvalue _ (List.mem_map_of_mem ha) hv, nofun⟩
    simp only [spelling, List.forall_mem_append, List.forall_mem_cons]
    exact ⟨forall_commaSpelling (hsign _) hitem, hsign _, nofun⟩
  | function h =>
    have hitem : ∀ p ∈ h.params, ∀ f ∈ p.spelling, P f := by
      intro p hp
      simp only [Param.spelling, List.forall_mem_append, List.forall_mem_cons]
      exact ⟨forall_finalSpelling hword _, hword _, hname _ (hs.2 p hp), nofun⟩
    simp only [spelling, Header.spelling, List.forall_mem_append, List.forall_mem_cons]
    exact ⟨hword _, hname _ hs.1.variableName, forall_parenthesisedSpelling hsign hitem, hsign _, nofun⟩
  | call c =>
    have hitem : ∀ v ∈ c.args, ∀ f ∈ [v.form], P f := fun v hv =>
      List.forall_mem_singleton.mpr (hvalue v hv (hs.2 v hv))
    simp only [spelling, Call.spelling, List.forall_mem_append, List.forall_mem_cons]
    exact ⟨hname _ hs.1.variableName, forall_parenthesisedSpelling hsign hitem, hsign _, nofun⟩
  | guard w c =>
    have hfirst : P c.first.form := hvalue _ List.mem_cons_self (hs _ List.mem_cons_self).1
    have hlink : ∀ f ∈ c.rest.flatMap fun link => [.sign link.1.symbol, link.2.form], P f := by
      intro f hf
      obtain ⟨link, hlink, hf⟩ := List.mem_flatMap.mp hf
      have hoperand : link.2 ∈ c.operands := List.mem_cons_of_mem _ (List.mem_map_of_mem hlink)
      rcases List.mem_cons.mp hf with rfl | hf
      · exact hsign _
      · exact List.eq_of_mem_singleton hf ▸ hvalue _ hoperand (hs _ hoperand).1
    simp only [spelling, Condition.spelling, List.forall_mem_append, List.forall_mem_cons]
    exact ⟨hword _, hsign _, hfirst, hlink, hsign _, hsign _, nofun⟩
  | «return» => exact List.forall_mem_cons.mpr ⟨hword _, List.forall_mem_singleton.mpr (hsign _)⟩
  | closeBrace => exact List.forall_mem_singleton.mpr (hsign _)

end Pieces

/-- The tokens of a statement have texts of their kinds, if its literals have. -/
theorem Statement.admits_spelling {s : Statement} (hs : s.WellFormed)
    (hliterals : ∀ l, Value.literal l ∈ s.values → l.Shaped) : ∀ f ∈ s.spelling, f.kind.Admits f.text.toList := by
  refine Statement.forall_spelling (fun k => rfl) (fun s => rfl) (fun x hx => hx.admits) (fun v hv hgood => ?_) hs
  cases v with
  | name x => exact VariableName.admits hgood
  | literal l =>
    have hshaped := hliterals l hv
    cases l with
    | boolean b => cases b <;> rfl
    | _ => exact hshaped

/-! ### What stands next to what -/

namespace Loose

variable {fs gs : List TokenForm} {s : Symbol}

theorem nil : Loose [] :=
  List.IsChain.nil

theorem one (f : TokenForm) : Loose [f] :=
  List.IsChain.singleton f

/-- A symbol may stand before anything. -/
theorem sign (s : Symbol) (hg : Loose gs) : Loose (.sign s :: gs) :=
  List.isChain_cons.mpr ⟨fun _ _ => .inl ⟨s, rfl⟩, hg⟩

/-- Anything may stand before a symbol. -/
theorem append_sign (hf : Loose fs) (hg : Loose (.sign s :: gs)) : Loose (fs ++ .sign s :: gs) :=
  List.IsChain.append hf hg fun _ _ g hg => by
    cases hg
    exact .inr (.inl ⟨s, rfl⟩)

theorem cons_sign (f : TokenForm) (hg : Loose (.sign s :: gs)) : Loose (f :: .sign s :: gs) :=
  (one f).append_sign hg

/-- A word may stand before a name. -/
theorem word_name (k : Keyword) {x : String} (hg : Loose (.name x :: gs)) : Loose (.word k :: .name x :: gs) :=
  List.isChain_cons.mpr ⟨fun g hg => by cases hg; exact .inr (.inr ⟨rfl, rfl⟩), hg⟩

theorem word_word (k : Keyword) {k' : Keyword} (hg : Loose (.word k' :: gs)) : Loose (.word k :: .word k' :: gs) :=
  List.isChain_cons.mpr ⟨fun g hg => by cases hg; exact .inr (.inr ⟨rfl, rfl⟩), hg⟩

/-- Further items, each behind a symbol. -/
theorem flatMap {α : Type} {spell : α → List TokenForm} (h : ∀ a, Loose (spell a)) (s : α → Symbol) (as : List α)
    (hf : Loose fs) : Loose (fs ++ as.flatMap fun a => .sign (s a) :: spell a) := by
  induction as generalizing fs with
  | nil => rwa [List.flatMap_nil, List.append_nil]
  | cons a as ih =>
    have hall := ih (hf.append_sign ((h a).sign (s a)))
    rwa [List.append_assoc] at hall

theorem commaSpelling {α : Type} {spell : α → List TokenForm} (h : ∀ a, Loose (spell a)) (as : List α) :
    Loose (commaSpelling spell as) := by
  cases as with
  | nil => exact nil
  | cons a as => exact flatMap h (fun _ => .comma) as (h a)

theorem parenthesisedSpelling {α : Type} {spell : α → List TokenForm} (h : ∀ a, Loose (spell a)) (as : List α) :
    Loose (parenthesisedSpelling spell as) :=
  .sign _ ((commaSpelling h as).append_sign (nil.sign _))

theorem finalSpelling (isFinal : Bool) {k : Keyword} (hg : Loose (.word k :: gs)) :
    Loose (finalSpelling isFinal ++ .word k :: gs) := by
  cases isFinal
  · exact hg
  · exact word_word .final hg

theorem declarator (d : Declarator) : Loose d.spelling := by
  obtain ⟨x, init⟩ := d
  cases init with
  | none => exact one _
  | some v => exact cons_sign _ ((one v.form).sign _)

theorem assignment (a : Assignment) : Loose a.spelling :=
  cons_sign _ ((one a.value.form).sign _)

theorem param (p : Param) : Loose p.spelling :=
  finalSpelling p.isFinal (word_name _ (one _))

theorem declaration (d : Declaration) : Loose d.spelling := by
  obtain ⟨isFinal, ty, ds⟩ := d
  have hlist : Loose (LineCheck.commaSpelling Declarator.spelling ds ++ [.sign .semicolon]) :=
    (commaSpelling declarator ds).append_sign (nil.sign _)
  refine finalSpelling isFinal ?_
  cases ds with
  | nil => exact cons_sign _ hlist
  | cons x ds => exact word_name _ hlist

theorem header (h : Header) : Loose h.spelling :=
  word_name _ (cons_sign _ ((parenthesisedSpelling param h.params).append_sign (nil.sign _)))

theorem call (c : Call) : Loose c.spelling := by
  have hargs : Loose (LineCheck.parenthesisedSpelling (fun v => [v.form]) c.args) :=
    parenthesisedSpelling (fun v => one v.form) c.args
  exact cons_sign _ (hargs.append_sign (nil.sign _))

theorem condition (c : Condition) : Loose c.spelling := by
  have hclose : Loose [.sign .rightParen, .sign .leftBrace] := (nil.sign _).sign _
  have hoperands : Loose ([c.first.form] ++ c.rest.flatMap fun link => [.sign link.1.symbol, link.2.form]) :=
    flatMap (fun link : Connective × Value => one link.2.form) (fun link => link.1.symbol) c.rest (one _)
  exact .sign _ (hoperands.append_sign hclose)

/-- In a statement no number or quoted literal stands beside another or beside a word. -/
theorem statement (s : Statement) : Loose s.spelling := by
  cases s with
  | blank => exact nil
  | comment => exact nil
  | declaration d => exact declaration d
  | assignment as => exact (commaSpelling assignment as).append_sign (nil.sign _)
  | function h => exact header h
  | call c => exact call c
  | guard w c => exact cons_sign _ (condition c)
  | «return» => exact cons_sign _ (nil.sign _)
  | closeBrace => exact nil.sign _

end Loose

/-! ### Reading a layout back -/

theorem Statement.spelling_ne_nil {s : Statement} (hs : s.WellFormed) : s.spelling ≠ [] := by
  cases s with
  | blank => exact hs.elim
  | comment => exact hs.elim
  | _ => simp [spelling, Declaration.spelling, Header.spelling, Call.spelling]

/-- A well-formed statement is read back from every layout of its tokens, and the line keeps the texts of just these
tokens. -/
theorem Line.ofText_of_layout (number : Nat) {s : Statement} {text : String} (hs : s.WellFormed)
    (hliterals : ∀ l, Value.literal l ∈ s.values → l.Shaped) (h : Layout s.spelling text.toList) :
    Line.ofText number text = .ok ⟨number, s.spelling.map TokenForm.text, s⟩ := by
  have hadmits := Statement.admits_spelling hs hliterals
  have hforms : (TokenLine.ofString text).forms = s.spelling := forms_of_layout h hadmits (Loose.statement s) 0
  have htexts : (TokenLine.ofString text).texts = s.spelling.map TokenForm.text := by
    rw [← hforms, TokenLine.forms, List.map_map]
    rfl
  have hblank : ¬ allBlank text = true := by
    intro hall
    obtain ⟨c, hc, hinitial⟩ := h.exists_isInitial hadmits (Statement.spelling_ne_nil hs)
    have hblank := allBlank_iff.mp hall c hc
    rw [isBlank_of_isInitial hinitial] at hblank
    cases hblank
  have hcomment : ¬ isComment text = true := by
    intro hcomment
    obtain ⟨rest, hrest⟩ := isComment_iff.mp hcomment
    rcases h.head hadmits '/' (by rw [← hrest]; rfl) with hgap | ⟨f, -, -, hinitial⟩
    · exact absurd hgap (by decide)
    · exact absurd rfl hinitial.2.2
  exact (Line.ofText_eq_ok_iff hblank hcomment).mpr ⟨hs, hforms, by rw [htexts]⟩

/-- Two final variables, the first with braces and slashes in its string. -/
def tightDeclaration : Declaration :=
  ⟨true, .string, [⟨"a", some (.literal (.string "\"\x7d//\x7b\""))⟩, ⟨"_1", some (.name "b")⟩]⟩

/-- Only the words are kept apart. -/
theorem Line.ofText_of_layout_tight :
    Layout (Statement.declaration tightDeclaration).spelling "final\tString a=\"\x7d//\x7b\",_1 =b; ".toList ∧
      Line.ofText 7 "final\tString a=\"\x7d//\x7b\",_1 =b; " =
        .ok ⟨7, ["final", "String", "a", "=", "\"\x7d//\x7b\"", ",", "_1", "=", "b", ";"],
          .declaration tightDeclaration⟩ := by
  have htight : ∀ c ∈ ([] : List Char), isGap c = true := nofun
  have htab : ∀ c ∈ ['\t'], isGap c = true := List.all_eq_true.mp rfl
  have hspace : ∀ c ∈ [' '], isGap c = true := List.all_eq_true.mp rfl
  have hlayout : Layout (Statement.declaration tightDeclaration).spelling
      "final\tString a=\"\x7d//\x7b\",_1 =b; ".toList :=
    .token [] _ htight (fun _ _ _ _ => ⟨'\t', rfl, rfl⟩) <| .token ['\t'] _ htab (fun _ _ _ _ => ⟨' ', rfl, rfl⟩) <|
    .token [' '] _ hspace (by rintro - g ⟨⟩ ⟨⟩) <| .token [] _ htight nofun <|
    .token [] _ htight nofun <| .token [] _ htight nofun <|
    .token [] _ htight (fun _ _ _ _ => ⟨' ', rfl, rfl⟩) <| .token [' '] _ hspace nofun <|
    .token [] _ htight (by rintro - g ⟨⟩ ⟨⟩) <| .token [] _ htight nofun <|
    .done [' '] hspace
  have ha : VariableName "a" := ⟨.inl ⟨'a', [], rfl, rfl, nofun⟩, Keyword.word_ne_of_ofWord? (by decide +kernel)⟩
  have hb : VariableName "b" := ⟨.inl ⟨'b', [], rfl, rfl, nofun⟩, Keyword.word_ne_of_ofWord? (by decide +kernel)⟩
  have h1 : VariableName "_1" := ⟨.inr ⟨'1', [], rfl, rfl, nofun⟩, Keyword.word_ne_of_ofWord? (by decide +kernel)⟩
  have hs : (Statement.declaration tightDeclaration).WellFormed := by
    refine ⟨nofun, List.forall_mem_cons.mpr ⟨⟨ha, ?_, fun _ => rfl⟩,
      List.forall_mem_singleton.mpr ⟨h1, ?_, fun _ => rfl⟩⟩⟩
    · rintro v ⟨⟩
      trivial
    · rintro v ⟨⟩
      exact hb
  have hliterals : ∀ l, Value.literal l ∈ (Statement.declaration tightDeclaration).values → l.Shaped := by
    intro l hl
    rcases List.mem_cons.mp hl with h | h
    · cases h
      exact ⟨['}', '/', '/', '{'], rfl, by decide⟩
    · cases List.eq_of_mem_singleton h
  exact ⟨hlayout, Line.ofText_of_layout 7 hs hliterals hlayout⟩

end LineCheck
