import LineCheck.Proofs.Syntax.Completion
import LineCheck.Proofs.Token.LongestMatch

/-!
# LineCheck.Proofs.Syntax.NormalForm — the texts of the tokens say all of a line

The texts of the tokens of a line, joined with single spaces, are cut into tokens of the same kinds and texts again.
The invalid ones are no exception: one that takes the rest of the line is the last one, and any other takes no more
where a gap follows it (`Lexeme.read_again`).  As the parser goes by kinds and texts, it makes the same of the joined
line, be it a statement or an error (`Line.ofText_joinedTexts`).
-/

namespace LineCheck

open Text

namespace Lexeme

/-! ### A token before a gap -/

theorem isDigit_of_isGap {c : Char} (h : isGap c = true) : c.isDigit = false := by
  have hword := (ends_of_isGap h).1
  simp only [isWordChar, Char.isAlphanum, Bool.or_eq_false_iff] at hword
  exact hword.1.2

theorem startsUnsigned_of_gap {rest : List Char} (h : ∀ d ∈ rest.head?, isGap d = true) :
    startsUnsigned rest = false := by
  cases rest with
  | nil => rfl
  | cons d ds =>
    have hgap : isGap d = true := h d rfl
    simp [startsUnsigned_cons, isDigit_of_isGap hgap, (ends_of_isGap hgap).2]

/-- What starts no number starts none before a gap. -/
theorem startsNumber_of_gap {c : Char} {cs rest : List Char} (hnumber : startsNumber (c :: cs) = false)
    (h : ∀ d ∈ rest.head?, isGap d = true) : startsNumber (c :: rest) = false := by
  have hnext : rest.head?.any Char.isDigit = false := by
    cases rest with
    | nil => rfl
    | cons d ds => exact isDigit_of_isGap (h d rfl)
  simp only [startsNumber, startsUnsigned_cons, Bool.or_eq_false_iff] at hnumber
  simp [startsNumber, startsUnsigned_cons, hnumber.1.1, hnext, startsUnsigned_of_gap h]

theorem sign_of_gap {c : Char} {cs rest : List Char} (hinvalid : (sign c cs).kind = .invalid)
    (h : ∀ d ∈ rest.head?, isGap d = true) : sign c rest = ⟨.invalid, [c], rest⟩ := by
  unfold sign at hinvalid ⊢
  split
  case h_8 => exact absurd (h _ rfl) (by decide)
  case h_9 => exact absurd (h _ rfl) (by decide)
  case h_10 => rfl
  all_goals cases hinvalid

theorem character_of_gap {d : Char} {ds rest : List Char} (hinvalid : (character (d :: ds)).kind = .invalid)
    (h : ∀ e ∈ rest.head?, isGap e = true) : character (d :: rest) = ⟨.invalid, ['\'', d], rest⟩ := by
  unfold character
  split
  case h_1 heq =>
    cases heq
    cases hinvalid
  case h_2 heq =>
    cases heq
    exact absurd (h _ rfl) (by decide)
  case h_3 heq =>
    cases heq
    rfl
  case h_4 heq => cases heq

/-- An invalid token that is neither a quote nor takes one stays what it is before a gap. -/
theorem read_of_gap {c : Char} {cs rest : List Char} (hinvalid : (read c cs).kind = .invalid) (hdouble : c ≠ '"')
    (hsingle : c ≠ '\'') (h : ∀ d ∈ rest.head?, isGap d = true) : read c rest = ⟨.invalid, [c], rest⟩ := by
  have hnumber : startsNumber (c :: cs) = false := by
    rw [Bool.eq_false_iff]
    intro hstarts
    rw [read, if_pos hstarts] at hinvalid
    exact not_invalid_of_admits (admits_number hstarts) hinvalid
  have hword : ¬ isWordStart c = true := by
    intro hstarts
    rw [read, if_neg (by rw [hnumber]; exact Bool.false_ne_true), if_pos hstarts] at hinvalid
    exact not_invalid_of_admits
      (admits_ofWord ⟨c, _, rfl, hstarts, fun d hd => List.mem_takeWhile_imp hd⟩) hinvalid
  have hread : ∀ ds, startsNumber (c :: ds) = false → read c ds = sign c ds := by
    intro ds hds
    rw [read, if_neg (by rw [hds]; exact Bool.false_ne_true), if_neg hword, if_neg hdouble, if_neg hsingle]
  rw [hread cs hnumber] at hinvalid
  rw [hread rest (startsNumber_of_gap hnumber h), sign_of_gap hinvalid h]

/-- A token starts with the first character. -/
theorem exists_text_eq_cons (c : Char) (cs : List Char) : ∃ tail, (read c cs).text = c :: tail := by
  obtain ⟨d, tail, htext⟩ := List.exists_cons_of_ne_nil (read_text_ne_nil c cs)
  have hsplit := read_text_append_rest c cs
  rw [htext] at hsplit
  obtain rfl : d = c := (List.cons.inj hsplit).1
  exact ⟨tail, htext⟩

theorem read_slash (cs : List Char) : read '/' cs = ⟨.invalid, ['/'], cs⟩ := by
  rw [read, startsNumber_eq_false rfl rfl (by decide) cs]
  rfl

/-- A token is cut off in the same way where a gap follows it, or nothing; what takes the rest of a line has to be the
last one again. -/
theorem read_again (c : Char) (cs : List Char) {rest : List Char} (h : ∀ d ∈ rest.head?, isGap d = true)
    (hend : (read c cs).rest = [] → rest = []) :
    ∃ tail, (read c cs).text = c :: tail ∧ read c (tail ++ rest) = ⟨(read c cs).kind, (read c cs).text, rest⟩ := by
  obtain ⟨tail, htext⟩ := exists_text_eq_cons c cs
  refine ⟨tail, htext, ?_⟩
  by_cases hinvalid : (read c cs).kind = .invalid
  · have hpart := text_read_of_invalid hinvalid
    rw [htext] at hpart
    by_cases hdouble : c = '"'
    · -- all of the line is taken, so nothing may follow
      subst hdouble
      obtain rfl : tail = cs := (List.cons.inj hpart).2
      have hnone : (read '"' tail).rest = [] := by
        have hsplit := read_text_append_rest '"' tail
        rwa [htext, List.append_right_eq_self] at hsplit
      rw [hend hnone, List.append_nil]
      exact congrArg (Lexeme.mk _ _) hnone
    · by_cases hsingle : c = '\''
      · subst hsingle
        obtain rfl : tail = cs.take 1 := (List.cons.inj hpart).2
        cases cs with
        | nil =>
          rw [hend rfl]
          rfl
        | cons d ds =>
          rw [htext, hinvalid]
          exact character_of_gap hinvalid h
      · rw [invalidPart_of_ne hdouble hsingle] at hpart
        obtain rfl : tail = [] := (List.cons.inj hpart).2
        rw [htext, hinvalid]
        exact read_of_gap hinvalid hdouble hsingle h
  · have hadmits := admits_read hinvalid
    rw [htext] at hadmits ⊢
    exact read_of_admits hadmits (stopsAt_of_ends (fun d hd => ends_of_isGap (h d hd)) _)

end Lexeme

/-! ### The tokens of a joined line -/

/-- The tokens with single spaces between them. -/
def interspersed : List TokenForm → List Char
  | [] => []
  | f :: fs => f.text.toList ++ spaced fs

theorem spaced_eq_gap_append (fs : List TokenForm) :
    ∃ gap, (∀ c ∈ gap, isGap c = true) ∧ spaced fs = gap ++ interspersed fs := by
  cases fs with
  | nil => exact ⟨[], fun c hc => absurd hc List.not_mem_nil, rfl⟩
  | cons f fs => exact ⟨[' '], List.forall_mem_singleton.mpr rfl, rfl⟩

theorem isGap_of_mem_head?_spaced {fs : List TokenForm} : ∀ c ∈ (spaced fs).head?, isGap c = true := by
  cases fs with
  | nil => exact fun c hc => by cases hc
  | cons f fs => exact fun c hc => by cases hc; rfl

/-- Joined with spaces the texts of the tokens are this text. -/
theorem toList_intercalate_texts (fs : List TokenForm) :
    (" ".intercalate (fs.map TokenForm.text)).toList = interspersed fs := by
  have hcons : ∀ f fs, (" ".intercalate (List.map TokenForm.text (f :: fs))).toList = f.text.toList ++ spaced fs := by
    intro f fs
    induction fs generalizing f with
    | nil => simp [spaced]
    | cons g gs ih =>
      have hmore := ih g
      rw [List.map_cons] at hmore
      rw [List.map_cons, List.map_cons, String.intercalate_cons_cons, String.toList_append, String.toList_append, hmore]
      simp [spaced]
  cases fs with
  | nil => rfl
  | cons f fs => exact hcons f fs

/-- The tokens that a scanner gives are given again where they stand with single spaces between them. -/
theorem Scanner.forms_interspersed (s : Scanner) (offset : Nat) {gap : List Char} (hgap : ∀ c ∈ gap, isGap c = true) :
    (Scanner.tokens ⟨offset, gap ++ interspersed (s.tokens.map Token.form)⟩).map Token.form =
      s.tokens.map Token.form := by
  fun_induction tokens s generalizing offset gap with
  | case1 s hnone =>
    have hover : (⟨offset, gap ++ interspersed []⟩ : Scanner).next? = none := by
      rw [next?_eq_none_iff, interspersed, List.append_nil]
      exact List.dropWhile_eq_nil_iff.mpr hgap
    exact congrArg (List.map Token.form) (tokens_of_next?_eq_none hover)
  | case2 s t s' hnext ih =>
    obtain ⟨c, cs, hrest, hkind, htext, hs'⟩ := next?_eq_some hnext
    have hform : t.form = ⟨(Lexeme.read c cs).kind, String.ofList (Lexeme.read c cs).text⟩ := by
      rw [Token.form, hkind, htext]
    have hend : (Lexeme.read c cs).rest = [] → spaced (s'.tokens.map Token.form) = [] := by
      intro hnil
      rw [tokens_of_next?_eq_none (next?_eq_none_iff.mpr (by rw [hs', hnil]; rfl))]
      rfl
    obtain ⟨tail, hcons, hread⟩ := Lexeme.read_again c cs isGap_of_mem_head?_spaced hend
    have hfirst : isGap c = false := by
      have hstop := Lexeme.head?_dropWhile isGap s.rest
      exact hstop c (by rw [hrest]; rfl)
    have hdrop : (gap ++ interspersed ((t :: s'.tokens).map Token.form)).dropWhile isGap =
        c :: (tail ++ spaced (s'.tokens.map Token.form)) := by
      have htoken : t.form.text.toList = c :: tail := by rw [hform, ← hcons, String.toList_ofList]
      rw [List.dropWhile_append_of_pos hgap, List.map_cons, interspersed, htoken, List.cons_append]
      exact List.dropWhile_cons_of_neg (by rw [hfirst]; exact Bool.false_ne_true)
    obtain ⟨u, s'', hagain, huform, hs''⟩ := next?_of_dropWhile (s := ⟨offset, _⟩) hdrop
    rw [hread] at huform hs''
    obtain ⟨gap', hgap', hspaced⟩ := spaced_eq_gap_append (s'.tokens.map Token.form)
    have hmore := ih s''.offset hgap'
    rw [← hspaced, ← show s''.rest = spaced (s'.tokens.map Token.form) from hs''] at hmore
    rw [tokens_of_next?_eq_some hagain, List.map_cons, List.map_cons, huform, hform, hmore]

theorem TokenLine.texts_eq (l : TokenLine) : l.texts = l.forms.map TokenForm.text := by
  rw [texts, forms, List.map_map]
  rfl

/-- The texts of the tokens of a line with single spaces between them. -/
def TokenLine.joinedTexts (l : TokenLine) : String :=
  " ".intercalate l.texts

theorem TokenLine.toList_joinedTexts (l : TokenLine) : l.joinedTexts.toList = interspersed l.forms := by
  rw [joinedTexts, texts_eq, toList_intercalate_texts]

theorem TokenLine.forms_joinedTexts (line : String) :
    (ofString (ofString line).joinedTexts).forms = (ofString line).forms := by
  have hforms := (Scanner.ofString line).forms_interspersed 0 (fun c hc => absurd hc List.not_mem_nil)
  rw [List.nil_append] at hforms
  show (Scanner.tokens ⟨0, _⟩).map Token.form = _
  rw [toList_joinedTexts]
  exact hforms

/-! ### Blank lines and comments -/

/-- A character of a line is in a gap or in a token. -/
theorem Scanner.isGap_or_mem_text (s : Scanner) :
    ∀ c ∈ s.rest, isGap c = true ∨ ∃ f ∈ s.tokens.map Token.form, c ∈ f.text.toList := by
  fun_induction tokens s with
  | case1 s hnone =>
    have hgap := List.dropWhile_eq_nil_iff.mp (next?_eq_none_iff.mp hnone)
    exact fun c hc => .inl (hgap c hc)
  | case2 s t s' hnext ih =>
    obtain ⟨d, ds, hrest, -, htext, hs'⟩ := next?_eq_some hnext
    intro c hc
    rw [← List.takeWhile_append_dropWhile (p := isGap) (l := s.rest), hrest, ← Lexeme.read_text_append_rest d ds] at hc
    rcases List.mem_append.mp hc with hgap | hc
    · exact .inl (List.mem_takeWhile_imp hgap)
    · rcases List.mem_append.mp hc with hc | hc
      · refine .inr ⟨t.form, by simp, ?_⟩
        rw [Token.form, htext, String.toList_ofList]
        exact hc
      · rcases ih c (hs' ▸ hc) with hgap | ⟨f, hf, hc⟩
        · exact .inl hgap
        · exact .inr ⟨f, List.mem_cons_of_mem _ hf, hc⟩

theorem mem_interspersed {fs : List TokenForm} {f : TokenForm} (hf : f ∈ fs) {c : Char} (hc : c ∈ f.text.toList) :
    c ∈ interspersed fs := by
  cases fs with
  | nil => cases hf
  | cons g gs =>
    rcases List.mem_cons.mp hf with rfl | hf
    · exact List.mem_append_left _ hc
    · exact List.mem_append_right _ (List.mem_flatMap.mpr ⟨f, hf, List.mem_cons_of_mem _ hc⟩)

theorem TokenLine.not_allBlank_joinedTexts {line : String} (h : ¬ allBlank line = true) :
    ¬ allBlank (ofString line).joinedTexts = true := by
  intro hjoined
  refine h (allBlank_iff.mpr fun c hc => ?_)
  rcases (Scanner.ofString line).isGap_or_mem_text c hc with hgap | ⟨f, hf, hmem⟩
  · exact isBlank_of_isGap hgap
  · refine allBlank_iff.mp hjoined c ?_
    rw [toList_joinedTexts]
    exact mem_interspersed hf hmem

/-- A slash is a token by itself, and a space follows it. -/
theorem TokenLine.not_isComment_joinedTexts (line : String) : ¬ isComment (ofString line).joinedTexts = true := by
  intro hcomment
  have hslashes := isComment_iff.mp hcomment
  rw [toList_joinedTexts, forms] at hslashes
  cases hnext : (Scanner.ofString line).next? with
  | none =>
    rw [ofString, Scanner.tokens_of_next?_eq_none hnext] at hslashes
    cases List.prefix_nil.mp hslashes
  | some ts =>
    obtain ⟨t, s⟩ := ts
    obtain ⟨c, cs, -, -, htext, -⟩ := Scanner.next?_eq_some hnext
    obtain ⟨tail, hcons⟩ := Lexeme.exists_text_eq_cons c cs
    rw [ofString, Scanner.tokens_of_next?_eq_some hnext, List.map_cons, interspersed, Token.form, htext,
      String.toList_ofList, hcons, List.cons_append, List.cons_prefix_cons] at hslashes
    obtain ⟨rfl, hsecond⟩ := hslashes
    rw [Lexeme.read_slash] at hcons
    obtain rfl : [] = tail := (List.cons.inj hcons).2
    obtain ⟨more, hmore⟩ := hsecond
    have hgap : isGap '/' = true := isGap_of_mem_head?_spaced '/' (by rw [← show _ = spaced _ from hmore]; rfl)
    cases hgap

/-! ### The parser on a joined line -/

namespace Cursor

/-- Where the kinds and texts of the tokens of two lines are the same, the parser wants the same on both and finds a
token of the same kind. -/
theorem parseLine_error_of_forms {text text' : String} {e : ParseError}
    (h : (TokenLine.ofString text').forms = (TokenLine.ofString text).forms)
    (he : (ofString text).parseLine.1 = .error e) :
    ∃ e', (ofString text').parseLine.1 = .error e' ∧ e'.expected = e.expected ∧ e'.found = e.found := by
  have hnext : ((TokenLine.ofString text').tokens.take 2).map Token.kind =
      ((TokenLine.ofString text).tokens.take 2).map Token.kind := by
    rw [TokenParser.map_kind_take_two, TokenParser.map_kind_take_two]
    exact congrArg (fun fs => (List.take 2 fs).map TokenForm.kind) h
  cases hrun : Grammar.line.run (TokenLine.ofString text).tokens with
  | mk r rest =>
    obtain ⟨taken, htaken⟩ := TokenParser.exists_taken hrun
    obtain ⟨rest', hrun', hrest'⟩ :=
      Grammar.run_line_of_alike (congrArg Grammar.branch hnext) hrun htaken (h.trans htaken) rfl
    rw [parseLine, parse_fst, rest_ofString, hrun] at he
    rw [parseLine, parse_fst, rest_ofString, hrun']
    cases r with
    | ok s => cases he
    | error wanted =>
      cases he
      refine ⟨_, rfl, rfl, ?_⟩
      show (rest'.head?.getD _).kind = (rest.head?.getD _).kind
      rcases rest with _ | ⟨t, ts⟩ <;> rcases rest' with _ | ⟨t', ts'⟩
      · rfl
      · cases hrest'
      · cases hrest'
      · exact congrArg TokenForm.kind (List.cons.inj hrest').1

end Cursor

namespace Line

theorem ofText_eq_error_iff {number : Nat} {text : String} (hblank : ¬ allBlank text = true)
    (hcomment : ¬ isComment text = true) {e : ParseError} :
    ofText number text = .error e ↔ (Cursor.ofString text).parseLine.1 = .error e := by
  rw [ofText, if_neg hblank, if_neg hcomment]
  dsimp only
  cases (Cursor.ofString text).parseLine.1 with
  | ok s => exact iff_of_false (fun h => by cases h) fun h => by cases h
  | error e' => exact ⟨fun h => by cases h; rfl, fun h => by cases h; rfl⟩

/-- `TokenLine.joinedTexts` has the `TokenLine.allForms` of the line.  So unless the line is blank or a comment, it is
read as the same line, or refused with the same `expected`, `found` and `message`. -/
theorem ofText_joinedTexts (number : Nat) (line : String) :
    let joined := (TokenLine.ofString line).joinedTexts
    (TokenLine.ofString joined).allForms = (TokenLine.ofString line).allForms ∧
    (¬ allBlank line = true → ¬ isComment line = true →
      (∀ l, ofText number line = .ok l → ofText number joined = .ok l) ∧
      ∀ e, ofText number line = .error e → ∃ e', ofText number joined = .error e' ∧ e'.expected = e.expected ∧
        e'.found = e.found ∧ e'.message = e.message) := by
  intro joined
  have hforms : (TokenLine.ofString joined).forms = (TokenLine.ofString line).forms :=
    TokenLine.forms_joinedTexts line
  refine ⟨by rw [TokenLine.allForms_eq, TokenLine.allForms_eq, hforms], fun hblank hcomment => ?_⟩
  have hblank' := TokenLine.not_allBlank_joinedTexts hblank
  have hcomment' := TokenLine.not_isComment_joinedTexts line
  constructor
  · intro l hl
    obtain ⟨hgood, hspell, heq⟩ := (ofText_eq_ok_iff hblank hcomment).mp hl
    refine (ofText_eq_ok_iff hblank' hcomment').mpr ⟨hgood, hforms.trans hspell, ?_⟩
    have htexts : (TokenLine.ofString joined).texts = (TokenLine.ofString line).texts := by
      rw [TokenLine.texts_eq, TokenLine.texts_eq, hforms]
    rw [htexts]
    exact heq
  · intro e he
    obtain ⟨e', he', hexpected, hfound⟩ :=
      Cursor.parseLine_error_of_forms hforms ((ofText_eq_error_iff hblank hcomment).mp he)
    refine ⟨e', (ofText_eq_error_iff hblank' hcomment').mpr he', hexpected, hfound, ?_⟩
    rw [ParseError.message, ParseError.message, hexpected, hfound]

/-- A string that is never closed, a quote that has taken the space behind it, signs and points that belong to no
number: the joined line is cut into them again. -/
theorem ofText_joinedTexts_invalid :
    let line := "a=' +.1.2 &|x\t\"y  z"
    let joined := "a = '  +.1 .2 & | x \"y  z"
    (TokenLine.ofString line).joinedTexts = joined ∧
      (TokenLine.ofString joined).allForms = (TokenLine.ofString line).allForms ∧
      ∃ e e', ofText 3 line = .error e ∧ ofText 3 joined = .error e' ∧ e.span.stop = 4 ∧ e'.message = e.message := by
  intro line joined
  have hjoined : (TokenLine.ofString line).joinedTexts = joined := by decide +kernel
  have hread : ofText 3 line = .error ⟨.value, .invalid, ⟨2, 4, by decide⟩⟩ := by decide +kernel
  obtain ⟨hforms, hagain⟩ := ofText_joinedTexts 3 line
  obtain ⟨-, herror⟩ := hagain (by decide +kernel) (by decide +kernel)
  rw [hjoined] at hforms herror
  obtain ⟨e', he', -, -, hmessage⟩ := herror _ hread
  exact ⟨hjoined, hforms, _, e', hread, he', rfl, hmessage⟩

end Line

end LineCheck
