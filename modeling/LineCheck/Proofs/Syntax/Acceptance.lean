import LineCheck.Proofs.Syntax.Recognition
import LineCheck.Syntax.Line

/-!
# LineCheck.Proofs.Syntax.Acceptance — which lines are read, and as what

A line is blank or a comment for what its characters are; any other line is read as a statement if and only if the
statement is well formed and the tokens of the line are its spelling (`Line.ofText_eq_ok_iff`).  No spelling is the
start of another (`Statement.eq_of_spelling_append`), so a line has one reading and nothing on it is passed over.  The
braces of a line that is read are those of its statement (`netBraces_of_ofText`).
-/

namespace LineCheck

open Text

/-! ### One spelling is not the start of another -/

/-- A token of this form, at the start of a line. -/
def TokenForm.token (f : TokenForm) : Token :=
  ⟨f.kind, ⟨0, 0, Nat.le_refl 0⟩, f.text⟩

theorem map_form_map_token (fs : List TokenForm) : (fs.map TokenForm.token).map Token.form = fs := by
  rw [List.map_map]
  exact List.map_id fs

/-- Two statements whose spellings start alike are the same, and so are the spellings. -/
theorem Statement.eq_of_spelling_append {s s' : Statement} {more : List TokenForm} (hs : s.WellFormed)
    (hs' : s'.WellFormed) (h : s'.spelling = s.spelling ++ more) : s' = s ∧ more = [] := by
  have hforms := map_form_map_token s'.spelling
  have hshort : (s'.spelling.map TokenForm.token).map Token.form = s.spelling ++ more := hforms.trans h
  have hlong : (s'.spelling.map TokenForm.token).map Token.form = s'.spelling ++ [] :=
    hforms.trans (List.append_nil _).symm
  obtain ⟨rest, hrun, hrest⟩ := Grammar.recognises_statement.complete ⟨hs, rfl⟩ (TokenParser.follows_any more) hshort
  obtain ⟨rest', hrun', hrest'⟩ := Grammar.recognises_statement.complete ⟨hs', rfl⟩ (TokenParser.follows_any []) hlong
  rw [hrun] at hrun'
  cases hrun'
  exact ⟨rfl, hrest.symm.trans hrest'⟩

/-! ### Lines -/

namespace Text

theorem allBlank_iff {text : String} : allBlank text = true ↔ ∀ c ∈ text.toList, isBlank c = true :=
  List.all_eq_true

theorem isComment_iff {text : String} : isComment text = true ↔ ['/', '/'] <+: text.toList :=
  List.isPrefixOf_iff_prefix

end Text

namespace Line

variable {number : Nat} {text : String}

theorem shaped_tokens (text : String) : ∀ t ∈ (TokenLine.ofString text).tokens, t.Shaped :=
  (Scanner.ofString text).shaped_tokens

/-- A line that is neither blank nor a comment is read as the statement that its tokens spell. -/
theorem ofText_eq_ok_iff (hblank : ¬ allBlank text = true) (hcomment : ¬ isComment text = true) {l : Line} :
    ofText number text = .ok l ↔
      l.statement.WellFormed ∧ (TokenLine.ofString text).forms = l.statement.spelling ∧
        l = ⟨number, (TokenLine.ofString text).texts, l.statement⟩ := by
  have hparse : ∀ s, (Cursor.ofString text).parseLine.1 = .ok s ↔
      s.WellFormed ∧ (TokenLine.ofString text).forms = s.spelling := by
    intro s
    rw [Cursor.parseLine, Cursor.parse_fst_eq_ok_iff, Cursor.rest_ofString]
    exact Grammar.run_line_eq_ok_iff (shaped_tokens text)
  unfold ofText
  rw [if_neg hblank, if_neg hcomment]
  dsimp only
  constructor
  · intro h
    cases hrun : (Cursor.ofString text).parseLine.1 with
    | error e => rw [hrun] at h; cases h
    | ok s =>
      rw [hrun] at h
      cases h
      exact ⟨((hparse s).mp hrun).1, ((hparse s).mp hrun).2, rfl⟩
  · rintro ⟨hgood, hspell, hl⟩
    rw [(hparse l.statement).mpr ⟨hgood, hspell⟩, hl]
    rfl

theorem map_statement_eq_ok_iff {s : Statement} :
    (ofText number text).map statement = .ok s ↔ ∃ l, ofText number text = .ok l ∧ l.statement = s := by
  cases ofText number text with
  | error e => exact ⟨nofun, fun ⟨l, hl, _⟩ => by cases hl⟩
  | ok l => exact ⟨fun h => by cases h; exact ⟨l, rfl, rfl⟩, fun ⟨l', hl, hs⟩ => by cases hl; rw [← hs]; rfl⟩

/-- The statement of a line that is neither blank nor a comment. -/
theorem map_statement_iff_spelling (hblank : ¬ allBlank text = true) (hcomment : ¬ isComment text = true)
    {s : Statement} :
    (ofText number text).map statement = .ok s ↔
      s.WellFormed ∧ (TokenLine.ofString text).forms = s.spelling := by
  rw [map_statement_eq_ok_iff]
  constructor
  · rintro ⟨l, hl, rfl⟩
    obtain ⟨hgood, hspell, -⟩ := (ofText_eq_ok_iff hblank hcomment).mp hl
    exact ⟨hgood, hspell⟩
  · rintro ⟨hgood, hspell⟩
    exact ⟨⟨number, (TokenLine.ofString text).texts, s⟩,
      (ofText_eq_ok_iff hblank hcomment).mpr ⟨hgood, hspell, rfl⟩, rfl⟩

/-- A line that is neither blank nor a comment makes a statement if and only if the statement is well formed and the
line's `TokenLine.forms` are its `Statement.spelling`; and no spelling is a proper start of another. -/
theorem ofText_grammar (number : Nat) (text : String) :
    ((ofText number text).map statement = .ok .blank ↔ ∀ c ∈ text.toList, isBlank c = true) ∧
    ((ofText number text).map statement = .ok .comment ↔
      (¬ ∀ c ∈ text.toList, isBlank c = true) ∧ ['/', '/'] <+: text.toList) ∧
    ((¬ ∀ c ∈ text.toList, isBlank c = true) → ¬ ['/', '/'] <+: text.toList →
      ∀ s, (ofText number text).map statement = .ok s ↔
        s.WellFormed ∧ (TokenLine.ofString text).forms = s.spelling) ∧
    ∀ (s s' : Statement) (more : List TokenForm), s.WellFormed → s'.WellFormed →
      s'.spelling = s.spelling ++ more → s' = s ∧ more = [] := by
  rw [← allBlank_iff, ← isComment_iff]
  refine ⟨?_, ?_, fun hblank hcomment s => map_statement_iff_spelling hblank hcomment,
    fun s s' more hs hs' h => Statement.eq_of_spelling_append hs hs' h⟩
  · by_cases hblank : allBlank text = true
    · simp [ofText, hblank, Except.map]
    · refine iff_of_false (fun h => ?_) hblank
      by_cases hcomment : isComment text = true
      · simp [ofText, hblank, hcomment, Except.map] at h
      · exact ((map_statement_iff_spelling hblank hcomment).mp h).1
  · by_cases hblank : allBlank text = true
    · simp [ofText, hblank, Except.map]
    · by_cases hcomment : isComment text = true
      · simp [ofText, hblank, hcomment, Except.map]
      · refine iff_of_false (fun h => ?_) fun h => hcomment h.2
        exact ((map_statement_iff_spelling hblank hcomment).mp h).1

end Line

/-- A line that is read opens a brace if it is a header, closes one if it is the end of a block, and does neither
otherwise. -/
theorem netBraces_of_ofText {number : Nat} {text : String} {l : Line} (h : Line.ofText number text = .ok l) :
    netBraces text = l.statement.braces := by
  by_cases hblank : allBlank text = true
  · rw [Line.ofText, if_pos hblank] at h
    cases h
    exact netBraces_of_allBlank hblank
  · by_cases hcomment : isComment text = true
    · rw [Line.ofText, if_neg hblank, if_pos hcomment] at h
      cases h
      exact if_pos hcomment
    · obtain ⟨-, hspell, -⟩ := (Line.ofText_eq_ok_iff hblank hcomment).mp h
      obtain ⟨hvalid, hsum⟩ := Weighs.statement l.statement
      rw [← hspell, TokenLine.forms, List.map_map] at hsum
      have htokens : ∀ t ∈ (TokenLine.ofString text).tokens, t.kind ≠ .invalid := fun t ht =>
        hvalid t.form (hspell ▸ List.mem_map_of_mem ht)
      exact (netBraces_of_valid htokens).trans hsum

/-- Where no token of a line is invalid, what the characters of the line add to the number of open braces is the number
of its opening brace tokens less that of its closing ones.  So a line that is read adds one brace if it is a header,
takes one away if it ends a block, and does neither if it is anything else. -/
theorem netBraces_eq_tokens (line : String) :
    ((∀ t ∈ (TokenLine.ofString line).toList, t.kind ≠ .invalid) →
      let kinds := (TokenLine.ofString line).toList.map Token.kind
      netBraces line = kinds.count (.symbol .leftBrace) - kinds.count (.symbol .rightBrace)) ∧
    ∀ number l, Line.ofText number line = .ok l →
      netBraces line =
        if l.kind ∈ [.function, .guard .ifWord, .guard .whileWord] then 1
        else if l.kind = .closeBrace then -1 else 0 := by
  constructor
  · intro hvalid kinds
    have htokens : ∀ t ∈ (TokenLine.ofString line).tokens, t.kind ≠ .invalid := fun t ht =>
      hvalid t (List.mem_append_left _ ht)
    -- the token at the end of the line is no brace
    have hkinds : kinds = (TokenLine.ofString line).tokens.map Token.kind ++ [.endOfLine] := List.map_append
    rw [netBraces_of_valid htokens, TokenKind.bracesOf_eq_count, hkinds]
    simp
  · intro number l hread
    rw [netBraces_of_ofText hread, Line.kind]
    cases l.statement with
    | declaration d => cases hfinal : d.isFinal <;> simp [Statement.braces, Statement.kind, hfinal]
    | guard w c => cases w <;> simp [Statement.braces, Statement.kind]
    | _ => simp [Statement.braces, Statement.kind]

/-- Braces and a single quote inside quotes do not count, and those behind them do; a header opens one brace. -/
theorem netBraces_eq_tokens_quoted :
    let quoted := "\x7d \"\x7b'\" '\x7d' '' \x7b\x7b"
    let header := "while(a||_b1)\x7b"
    let guard : Statement := .guard .whileWord ⟨.name "a", [(.or, .name "_b1")]⟩
    ((∀ t ∈ (TokenLine.ofString quoted).toList, t.kind ≠ .invalid) ∧ netBraces quoted = 1) ∧
      (Line.ofText 7 header = .ok ⟨7, ["while", "(", "a", "||", "_b1", ")", "\x7b"], guard⟩ ∧ netBraces header = 1) := by
  intro quoted header guard
  have hvalid : ∀ t ∈ (TokenLine.ofString quoted).toList, t.kind ≠ .invalid := by decide +kernel
  have hread : Line.ofText 7 header = .ok ⟨7, ["while", "(", "a", "||", "_b1", ")", "\x7b"], guard⟩ := by
    decide +kernel
  refine ⟨⟨hvalid, ?_⟩, hread, ?_⟩
  · rw [(netBraces_eq_tokens quoted).1 hvalid]
    decide +kernel
  · rw [(netBraces_eq_tokens header).2 7 _ hread]
    rfl

end LineCheck
