import LineCheck.Proofs.Syntax.Completion

/-!
# LineCheck.Proofs.Syntax.DeadEnd — errors stand where a line has no way on

An error names the token at which the parser stopped.  The tokens before it go on to some statement, and with that
token they go on to none (`parseLine_error_is_dead_end`).  There is one exception: a name with an underscore first may
not be called, and the error names it though an assignment could start with it; there it takes the parenthesis too.
-/

namespace LineCheck

open Text

/-- The parser makes a statement of the line. -/
def Accepted (text : String) : Prop :=
  ∃ s, (Cursor.ofString text).parseLine.1 = .ok s

/-- A name that only variables may have stands where it would be called. -/
def CallsVariable (forms : List TokenForm) : Prop :=
  ∃ x more, VariableName x ∧ x.toList.head? = some '_' ∧ forms = .name x :: .sign .leftParen :: more

theorem CallsVariable.append {forms : List TokenForm} (h : CallsVariable forms) (more : List TokenForm) :
    CallsVariable (forms ++ more) := by
  obtain ⟨x, tail, hx, hunderscore, rfl⟩ := h
  exact ⟨x, tail ++ more, hx, hunderscore, rfl⟩

/-! ### Names at the start of a line -/

/-- The name at the start of a statement is that of a variable, and before a parenthesis it is that of a function. -/
theorem Statement.name_of_spelling {s : Statement} (hs : s.WellFormed) {x : String} {more : List TokenForm}
    (h : s.spelling = .name x :: more) :
    VariableName x ∧ ∀ tail, more = .sign .leftParen :: tail → FunctionName x := by
  cases s with
  | blank => exact hs.elim
  | comment => exact hs.elim
  | declaration d =>
    obtain ⟨isFinal, ty, ds⟩ := d
    cases isFinal <;> cases (List.cons.inj h).1
  | assignment as =>
    obtain ⟨hne, hgood⟩ := hs
    obtain ⟨a, as, rfl⟩ := List.exists_cons_of_ne_nil hne
    cases h
    exact ⟨(hgood a List.mem_cons_self).1, fun tail htail => by cases htail⟩
  | function hd => cases (List.cons.inj h).1
  | call c =>
    cases h
    exact ⟨hs.1.variableName, fun _ _ => hs.1⟩
  | guard w c => cases (List.cons.inj h).1
  | «return» => cases (List.cons.inj h).1
  | closeBrace => cases (List.cons.inj h).1

namespace Grammar

open TokenParser

variable {ts ts' rest : List Token} {e : Expected} {s : Statement} {taken more : List TokenForm}

/-- What is behind a token that was taken is no longer all of the line. -/
theorem run_bind_ne_of_take {α β : Type} {p : TokenParser α} {f : α → TokenParser β} {t : Token} {a : α}
    {r : Except Expected β} (h : p.run (t :: ts) = (.ok a, ts)) : (p >>= f).run (t :: ts) ≠ (r, t :: ts) := by
  intro hrun
  rw [run_bind, h] at hrun
  have hle := (f a).length_run_le ts
  rw [show (f a).run ts = (r, t :: ts) from hrun] at hle
  exact absurd hle (Nat.not_succ_le_self _)

/-- A call takes the name of a function. -/
theorem run_line_ne_of_functionName {t u : Token} {r : Except Expected Statement} (ht : t.kind = .identifier)
    (hu : u.kind = .symbol .leftParen) (hname : FunctionName t.text) :
    line.run (t :: u :: ts) ≠ (r, t :: u :: ts) := by
  have htake : functionName.run (t :: u :: ts) = (.ok t.text, u :: ts) :=
    run_take_of_some (if_pos ⟨ht, hname.isFunctionName⟩) _
  have hkinds : ((t :: u :: ts).take 2).map Token.kind = [.identifier, .symbol .leftParen] := by
    rw [← ht, ← hu]
    rfl
  rw [run_line, hkinds, branch, call, bind_assoc, bind_assoc]
  exact run_bind_ne_of_take htake

/-- An assignment takes the name of a variable. -/
theorem run_line_ne_of_variableName {t : Token} {r : Except Expected Statement} (ht : t.kind = .identifier)
    (hnext : (ts.map Token.kind).head? ≠ some (.symbol .leftParen)) (hname : VariableName t.text) :
    line.run (t :: ts) ≠ (r, t :: ts) := by
  have htake : variableName.run (t :: ts) = (.ok t.text, ts) :=
    run_take_of_some (if_pos ⟨ht, hname.isVariableName⟩) _
  have hkinds : ((t :: ts).take 2).map Token.kind = .identifier :: (ts.take 1).map Token.kind := by
    rw [← ht]
    rfl
  have hhead : ((ts.take 1).map Token.kind).head? ≠ some (.symbol .leftParen) := by
    rwa [List.map_take, List.head?_take, if_neg Nat.one_ne_zero]
  rw [run_line, hkinds, branch_identifier hhead, assignments, commaList, assignment]
  simp only [bind_assoc]
  exact run_bind_ne_of_take htake

/-- A line that fails at a name that variables may have calls it, and functions may not have it. -/
theorem callsVariable_of_run_line {x : String} {fs : List TokenForm} (hts : ∀ t ∈ ts, t.Shaped)
    (h : line.run ts = (.error e, ts)) (hforms : ts.map Token.form = .name x :: fs) (hx : VariableName x) :
    CallsVariable (ts.map Token.form) := by
  cases ts with
  | nil => cases hforms
  | cons t ts =>
    obtain ⟨⟨hkind, rfl⟩, rfl⟩ : (t.kind = .identifier ∧ t.text = x) ∧ ts.map Token.form = fs := by
      simpa [Token.form, TokenForm.name] using hforms
    have hparen : (ts.map Token.kind).head? = some (.symbol .leftParen) := by
      by_contra hnext
      exact run_line_ne_of_variableName hkind hnext hx h
    obtain ⟨u, ts, rfl⟩ : ∃ u tail, ts = u :: tail := List.exists_cons_of_ne_nil (by rintro rfl; cases hparen)
    have hu : u.kind = .symbol .leftParen := Option.some.inj hparen
    have hform : u.form = .sign .leftParen := fixed_sign .leftParen u (hts u (by simp)) hu
    obtain ⟨hshape | ⟨c, cs, htext, -⟩, hfree⟩ := id hx
    · exact absurd h (run_line_ne_of_functionName hkind hu ⟨hshape, hfree⟩)
    · exact ⟨t.text, ts.map Token.form, hx, by rw [htext]; rfl, by rw [hforms, List.map_cons, hform]⟩

/-- The first tokens of an accepted line decide as those of a line that fails and has the tokens that it takes, and the
one behind them, in common with it. -/
theorem branch_eq_of_alike (hts : ∀ t ∈ ts, t.Shaped) (hts' : ∀ t ∈ ts', t.Shaped) (h : line.run ts = (.error e, rest))
    (h' : (line.run ts').1 = .ok s) (hforms : ts.map Token.form = taken ++ rest.map Token.form)
    (hforms' : ts'.map Token.form = taken ++ more) (hhead : more.head? = (rest.map Token.form).head?)
    (hname : taken = [] → ¬ CallsVariable (ts.map Token.form)) :
    branch ((ts'.take 2).map Token.kind) = branch ((ts.take 2).map Token.kind) := by
  cases taken with
  | cons f taken =>
    rw [map_kind_take_two, map_kind_take_two, hforms, hforms']
    simp only [List.cons_append, List.take_succ_cons, List.take_one, List.head?_append, hhead]
  | nil =>
    have hrest : rest = ts := by
      have hsuffix := line.run_suffix ts
      rw [h] at hsuffix
      exact hsuffix.eq_of_length (by simpa using (congrArg List.length hforms).symm)
    subst hrest
    have hforms₀ : (ts'.map Token.form).head? = (rest.map Token.form).head? := by
      rw [hforms']
      exact hhead
    cases rest with
    | nil =>
      obtain rfl : ts' = [] := by simpa using hforms₀
      rfl
    | cons t ts =>
      obtain ⟨t', tail, rfl, hform⟩ := exists_cons_of_head? hforms₀
      have hkind : t'.kind = t.kind := congrArg TokenForm.kind hform
      by_cases hidentifier : t.kind = .identifier
      · -- the accepted line starts with the name of a variable, so the other one fails where it is called
        have hfirst : t.form = .name t.text := by rw [Token.form, hidentifier]; rfl
        obtain ⟨hs, hspell⟩ := (run_line_eq_ok_iff hts').mp h'
        rw [List.map_cons, hform, hfirst] at hspell
        obtain ⟨hx, -⟩ := Statement.name_of_spelling hs hspell.symm
        have hforms₁ : (t :: ts).map Token.form = .name t.text :: ts.map Token.form := by rw [List.map_cons, hfirst]
        exact absurd (callsVariable_of_run_line hts h hforms₁ hx) (hname rfl)
      · rw [List.take_succ_cons, List.take_succ_cons, List.map_cons, List.map_cons, hkind]
        exact branch_cons_of_ne hidentifier _ _

/-- A line fails where a line does that has the tokens that it takes, and the one behind them, in common with it. -/
theorem run_line_ne_ok_of_alike (hts : ∀ t ∈ ts, t.Shaped) (hts' : ∀ t ∈ ts', t.Shaped)
    (h : line.run ts = (.error e, rest)) (hforms : ts.map Token.form = taken ++ rest.map Token.form)
    (hforms' : ts'.map Token.form = taken ++ more) (hhead : more.head? = (rest.map Token.form).head?)
    (hname : taken = [] → ¬ CallsVariable (ts.map Token.form)) : (line.run ts').1 ≠ .ok s := by
  intro h'
  have hbranch := branch_eq_of_alike hts hts' h h' hforms hforms' hhead hname
  obtain ⟨rest', hrun, -⟩ := run_line_of_alike hbranch h hforms hforms' hhead
  rw [hrun] at h'
  cases h'

end Grammar

/-! ### The end of a line as a token -/

theorem TokenLine.endOfLine_not_mem (text : String) : TokenForm.endOfLine ∉ (ofString text).forms := by
  intro hmem
  obtain ⟨t, ht, hform⟩ := List.mem_map.mp hmem
  have hkind : t.kind = .endOfLine := congrArg TokenForm.kind hform
  exact (Line.shaped_tokens text t ht).admits hkind nofun

/-- Two lists, each with a mark behind it that is not on it, that start alike and have one further item in common, be it
the mark. -/
theorem exists_append_of_prefix {α : Type} {front rest other : List α} {mark : α} (hrest : mark ∉ rest)
    (hother : mark ∉ other) (h : front ++ (rest ++ [mark]).take 1 <+: other ++ [mark]) :
    ∃ more, other = front ++ more ∧ more.head? = rest.head? := by
  obtain ⟨tail, htail⟩ := h
  cases rest with
  | nil =>
    -- the mark itself is in common, so nothing is behind it
    rcases List.eq_nil_or_concat tail with rfl | ⟨tail, last, rfl⟩
    · exact ⟨[], by simpa using htail.symm, rfl⟩
    · have hsplit : (front ++ mark :: tail) ++ [last] = other ++ [mark] := by simpa using htail
      obtain ⟨rfl, -⟩ := List.append_inj' hsplit rfl
      simp at hother
  | cons item rest =>
    rcases List.eq_nil_or_concat tail with rfl | ⟨tail, last, rfl⟩
    · have hsplit : front ++ [item] = other ++ [mark] := by simpa using htail
      obtain ⟨-, hmark⟩ := List.append_inj' hsplit rfl
      exact absurd (List.mem_cons.mpr (.inl (List.cons.inj hmark).1.symm)) hrest
    · have hsplit : (front ++ item :: tail) ++ [last] = other ++ [mark] := by simpa using htail
      obtain ⟨rfl, -⟩ := List.append_inj' hsplit rfl
      exact ⟨item :: tail, rfl, rfl⟩

namespace Cursor

variable {text : String} {e : ParseError}

/-- An error of the parser is one at the token where it stopped, behind those that it has taken. -/
theorem exists_run_of_parseLine (h : (ofString text).parseLine.1 = .error e) :
    ∃ wanted rest taken, Grammar.line.run (TokenLine.ofString text).tokens = (.error wanted, rest) ∧
      (TokenLine.ofString text).forms = taken ++ rest.map Token.form ∧
      taken.length = (ofString text).parseLine.2.position ∧
      e = .atToken wanted (ofString text).parseLine.2.peek := by
  cases hrun : Grammar.line.run (TokenLine.ofString text).tokens with
  | mk r rest =>
    obtain ⟨taken, htaken⟩ := TokenParser.exists_taken hrun
    have hlength : taken.length = (ofString text).parseLine.2.position := by
      show _ = (TokenLine.ofString text).tokens.length - (Grammar.line.run (TokenLine.ofString text).tokens).2.length
      have hcount := congrArg List.length htaken
      rw [List.length_map, List.length_append, List.length_map] at hcount
      rw [hrun, hcount, Nat.add_sub_cancel]
    have hpeek : (ofString text).parseLine.2.peek = rest.head?.getD (TokenLine.ofString text).last := by
      rw [peek_eq, parseLine, rest_parse, rest_ofString, hrun]
      rfl
    rw [parseLine, parse_fst, rest_ofString, hrun] at h
    cases r with
    | ok s => cases h
    | error wanted =>
      refine ⟨wanted, rest, taken, rfl, htaken, hlength, ?_⟩
      rw [hpeek]
      exact (Except.error.inj h).symm

/-- The tokens that are taken before an error are those at the start of some line that is read. -/
theorem exists_line_of_run {rest : List Token} {wanted : Expected} {taken : List TokenForm}
    (h : Grammar.line.run (TokenLine.ofString text).tokens = (.error wanted, rest))
    (hforms : (TokenLine.ofString text).forms = taken ++ rest.map Token.form) :
    ∃ other, ¬ allBlank other = true ∧ ¬ isComment other = true ∧ Accepted other ∧
      taken <+: (TokenLine.ofString other).allForms := by
  obtain ⟨taken', s, more, hforms', hs, hspell, hmore⟩ :=
    Grammar.exists_statement_of_run_line (Line.shaped_tokens text) h
  obtain rfl : taken = taken' := List.append_cancel_right (hforms.symm.trans hforms')
  have htaken : Written taken := by
    intro f hf
    obtain ⟨t, ht, rfl⟩ := List.mem_map.mp (show f ∈ (TokenLine.ofString text).forms from
      hforms ▸ List.mem_append_left _ hf)
    have hvalid : t.kind ≠ .invalid := (Weighs.statement s).1 t.form (hspell ▸ List.mem_append_left _ hf)
    exact (Line.shaped_tokens text t ht).admits rfl hvalid
  obtain ⟨other, hblank, hcomment, haccepted, hother⟩ :=
    exists_line_of_statement hs (hspell ▸ htaken.append hmore)
  refine ⟨other, hblank, hcomment, ⟨s, haccepted⟩, more ++ [.endOfLine], ?_⟩
  rw [TokenLine.allForms_eq, hother, hspell, List.append_assoc]

/-- No line that is accepted calls a name that starts with an underscore. -/
theorem not_prefix_of_accepted {x : String} {s : Statement} {more : List TokenForm} {other : String}
    (hx : x.toList.head? = some '_') (hs : (ofString other).parseLine.1 = .ok s) :
    ¬ (TokenForm.name x :: .sign .leftParen :: more).take 2 <+: (TokenLine.ofString other).allForms := by
  intro hprefix
  rw [TokenLine.allForms_eq] at hprefix
  have hmark : TokenForm.endOfLine ∉ [TokenForm.sign .leftParen] := by decide
  have htwo : [TokenForm.name x] ++ ([TokenForm.sign .leftParen] ++ [TokenForm.endOfLine]).take 1 <+:
      (TokenLine.ofString other).forms ++ [TokenForm.endOfLine] := hprefix
  obtain ⟨tail, hforms, hhead⟩ := exists_append_of_prefix hmark (TokenLine.endOfLine_not_mem other) htwo
  obtain ⟨hgood, hspell⟩ := parseLine_eq_ok_iff.mp hs
  obtain ⟨paren, htail⟩ := List.head?_eq_some_iff.mp hhead
  obtain ⟨-, hname⟩ := Statement.name_of_spelling hgood (hspell.symm.trans hforms)
  obtain ⟨⟨c, cs, htext, hc, -⟩, -⟩ := hname paren htail
  rw [htext] at hx
  cases hx
  cases hc

/-- The parser fails at the token that the error names, `stop.peek`.  The tokens before it start some `Accepted` line,
and with it they start none.  Only where a line calls a name that no function may have (`CallsVariable`), the
parenthesis behind the name belongs to these too. -/
theorem parseLine_error_is_dead_end (text : String) (e : ParseError) (h : (ofString text).parseLine.1 = .error e) :
    let stop := (ofString text).parseLine.2
    let forms := (TokenLine.ofString text).allForms
    ((TokenLine.ofString text).toList[stop.position]? = some stop.peek ∧ e.found = stop.peek.kind ∧
      e.span = stop.peek.span) ∧
    (∃ other, ¬ allBlank other = true ∧ ¬ isComment other = true ∧ Accepted other ∧
      forms.take stop.position <+: (TokenLine.ofString other).allForms) ∧
    (¬ (stop.position = 0 ∧ CallsVariable forms) →
      ∀ other, Accepted other → ¬ forms.take (stop.position + 1) <+: (TokenLine.ofString other).allForms) ∧
    (stop.position = 0 → CallsVariable forms →
      ∀ other, Accepted other → ¬ forms.take 2 <+: (TokenLine.ofString other).allForms) := by
  intro stop forms
  obtain ⟨wanted, rest, taken, hrun, hforms, hlength, rfl⟩ := exists_run_of_parseLine h
  have hall : forms = taken ++ (rest.map Token.form ++ [.endOfLine]) := by
    rw [← List.append_assoc, ← hforms]
    exact TokenLine.allForms_eq _
  have htake : forms.take stop.position = taken := by
    rw [hall, ← hlength]
    exact List.take_left
  refine ⟨⟨getElem?_position stop, rfl, rfl⟩, ?_, ?_, ?_⟩
  · rw [htake]
    exact exists_line_of_run hrun hforms
  · rintro hname other ⟨s, hs⟩ hprefix
    have htake' : forms.take (stop.position + 1) = taken ++ (rest.map Token.form ++ [TokenForm.endOfLine]).take 1 := by
      rw [hall, ← hlength, List.take_length_add_append]
    rw [htake', TokenLine.allForms_eq] at hprefix
    have hmark : TokenForm.endOfLine ∉ rest.map Token.form := by
      intro hmem
      exact TokenLine.endOfLine_not_mem text (hforms ▸ List.mem_append_right taken hmem)
    obtain ⟨more, hforms', hhead⟩ := exists_append_of_prefix hmark (TokenLine.endOfLine_not_mem other) hprefix
    refine Grammar.run_line_ne_ok_of_alike (Line.shaped_tokens text) (Line.shaped_tokens other) hrun hforms hforms'
      hhead (fun htaken hcalls => hname ⟨?_, ?_⟩) (parse_fst_eq_ok_iff.mp hs)
    · rw [← show taken.length = stop.position from hlength, htaken]
      rfl
    · rw [show forms = _ from TokenLine.allForms_eq _]
      exact hcalls.append _
  · rintro - ⟨x, more, -, hunderscore, hcalls⟩ other ⟨s, hs⟩ hprefix
    rw [hcalls] at hprefix
    exact not_prefix_of_accepted hunderscore hs hprefix

/-- A value is missing in the first line, and the second one calls what may only be a variable. -/
theorem parseLine_error_is_dead_end_value_and_call :
    (∃ e, (ofString "int x = ;").parseLine.1 = .error e ∧ e.expected = .value ∧ e.found = .symbol .semicolon ∧
      (∃ other, Accepted other ∧
        [.word (.type .int), .name "x", .sign .assign] <+: (TokenLine.ofString other).allForms) ∧
      ∀ other, Accepted other →
        ¬ [.word (.type .int), .name "x", .sign .assign, .sign .semicolon] <+: (TokenLine.ofString other).allForms) ∧
    ∃ e, (ofString "_f();").parseLine.1 = .error e ∧ e.expected = .functionName ∧ e.found = .identifier ∧
      ∀ other, Accepted other → ¬ [.name "_f", .sign .leftParen] <+: (TokenLine.ofString other).allForms := by
  constructor
  · have herror : (ofString "int x = ;").parseLine.1 =
        .error ⟨.value, .symbol .semicolon, ⟨8, 9, by decide⟩⟩ := by decide +kernel
    have hposition : (ofString "int x = ;").parseLine.2.position = 3 := by decide +kernel
    have hforms : (TokenLine.ofString "int x = ;").allForms =
        [.word (.type .int), .name "x", .sign .assign, .sign .semicolon, .endOfLine] := by decide +kernel
    obtain ⟨-, ⟨other, -, -, haccepted, hprefix⟩, hdead, -⟩ := parseLine_error_is_dead_end _ _ herror
    rw [hposition, hforms] at hprefix hdead
    exact ⟨_, herror, rfl, rfl, ⟨other, haccepted, hprefix⟩, hdead fun h => absurd h.1 (by decide)⟩
  · have herror : (ofString "_f();").parseLine.1 =
        .error ⟨.functionName, .identifier, ⟨0, 2, by decide⟩⟩ := by decide +kernel
    have hposition : (ofString "_f();").parseLine.2.position = 0 := by decide +kernel
    have hforms : (TokenLine.ofString "_f();").allForms =
        [.name "_f", .sign .leftParen, .sign .rightParen, .sign .semicolon, .endOfLine] := by decide +kernel
    have hname : VariableName "_f" :=
      ⟨.inr ⟨'f', [], rfl, rfl, nofun⟩, Keyword.word_ne_of_ofWord? (by decide +kernel)⟩
    obtain ⟨-, -, -, hdead⟩ := parseLine_error_is_dead_end _ _ herror
    rw [hposition, hforms] at hdead
    exact ⟨_, herror, rfl, rfl, hdead rfl ⟨"_f", _, hname, rfl, rfl⟩⟩

end Cursor

end LineCheck
