import LineCheck.Proofs.Syntax.Layout
import LineCheck.Proofs.Token.LongestMatch

/-!
# LineCheck.Proofs.Syntax.Gap — a gap at the end of a line

A gap character that is put at the end of a line is no part of what the line says.  No text of a token ends in one
(`TokenKind.Admits.isGap_last`), so the scanner cuts off the same tokens as before, except that the last one may swallow
the character if it is invalid (`Lexeme.read_concat_gap`); and a line with an invalid token is no statement either way.
So the line is read as the same statement as before, or as none (`Line.map_statement_push_gap`), and has the same braces
(`Text.netBraces_push_gap`).
-/

namespace LineCheck

open Text Lexeme

variable {g : Char}

/-! ### What is seen without tokens -/

namespace Text

theorem ne_of_isGap (hg : isGap g = true) {c : Char} (hc : isGap c = false) : g ≠ c := by
  rintro rfl
  rw [hg] at hc
  cases hc

theorem allBlank_push_gap (hg : isGap g = true) (text : String) : allBlank (text.push g) = allBlank text := by
  rw [allBlank, allBlank, String.toList_push, List.all_append, List.all_cons, List.all_nil, isBlank_of_isGap hg,
    Bool.and_true, Bool.and_true]

/-- Two slashes at the start of a line are not made by a gap at its end. -/
theorem isComment_push_gap (hg : isGap g = true) (text : String) : isComment (text.push g) = isComment text := by
  rw [Bool.eq_iff_iff, isComment_iff, isComment_iff, String.toList_push, List.prefix_concat_iff]
  refine or_iff_right fun hslashes => ?_
  have hlast := congrArg List.getLast? hslashes
  rw [List.getLast?_concat] at hlast
  exact absurd (Option.some.inj hlast).symm (ne_of_isGap hg rfl)

theorem netBracesFrom_concat_gap (hg : isGap g = true) (quote : Option Char) (cs : List Char) :
    netBracesFrom quote (cs ++ [g]) = netBracesFrom quote cs := by
  induction cs generalizing quote with
  | nil =>
    cases quote with
    | none => exact netBracesFrom_cons_of_not_mem (not_mem_markers (p := isGap) (by decide) hg) []
    | some q => rfl
  | cons c cs ih =>
    rw [List.cons_append]
    cases quote with
    | none =>
      rw [netBracesFrom, netBracesFrom, ih, ih]
    | some q => rw [netBracesFrom, netBracesFrom, ih]

/-- A gap at the end of a line adds nothing to its braces. -/
theorem netBraces_push_gap (hg : isGap g = true) (text : String) : netBraces (text.push g) = netBraces text := by
  rw [netBraces, netBraces, isComment_push_gap hg, String.toList_push, netBracesFrom_concat_gap hg]

end Text

/-! ### The last token of a line -/

theorem TokenKind.StopsAt.append {kind : TokenKind} {rest more : List Char} (h : kind.StopsAt rest)
    (hmore : kind.StopsAt more) : kind.StopsAt (rest ++ more) := by
  cases rest with
  | nil => exact hmore
  | cons c rest => cases kind <;> exact h

namespace Lexeme

theorem isGap_of_isPlainChar {c : Char} (h : isPlainChar c = true) : isGap c = false := by
  rw [Bool.eq_false_iff]
  intro hgap
  obtain ⟨hword, hpoint⟩ := ends_of_isGap hgap
  have hsign : isSign c = false := by
    rw [Bool.eq_false_iff]
    intro hsign
    rw [isGap_of_isInitial (isInitial_of_isSign hsign)] at hgap
    cases hgap
  simp [isPlainChar, hword, hsign, hpoint] at h

end Lexeme

/-- No text of a token has a gap for its last character. -/
theorem TokenKind.Admits.isGap_last {kind : TokenKind} {text : List Char} (h : kind.Admits (text ++ [g])) :
    isGap g = false := by
  have hmem : g ∈ text ++ [g] := List.mem_append_right text List.mem_cons_self
  have hlast : ∀ {d : Char} (front : List Char), text ++ [g] = front ++ [d] → g = d :=
    fun _ heq => List.singleton_inj.mp (List.append_inj' heq rfl).2
  cases kind with
  | endOfLine => exact h.elim
  | invalid => exact h.elim
  | identifier => exact isGap_of_isPlainChar (h.1.isPlainChar g hmem)
  | keyword k => exact isGap_of_isPlainChar (IsWord.isPlainChar (h ▸ isWord_word k) g hmem)
  | integer => exact isGap_of_isPlainChar (Signed.isPlainChar (fun _ => IsInteger.isPlainChar) h g hmem)
  | double => exact isGap_of_isPlainChar (Signed.isPlainChar (fun _ => IsDecimal.isPlainChar) h g hmem)
  | string =>
    obtain ⟨inside, htext, -⟩ := h
    rw [hlast ('"' :: inside) htext]
    rfl
  | char =>
    obtain htext | ⟨c, htext, -⟩ := h
    · rw [hlast ['\''] htext]
      rfl
    · rw [hlast ['\'', c] htext]
      rfl
  | symbol s =>
    have hsymbol : s.text.toList.all (fun d => !isGap d) = true := by cases s <;> rfl
    exact (Bool.not_eq_true' _).mp (List.all_eq_true.mp hsymbol g (h ▸ hmem))

namespace Lexeme

/-- The same token with more of a text behind it. -/
def extend (l : Lexeme) (more : List Char) : Lexeme :=
  ⟨l.kind, l.text, l.rest ++ more⟩

/-- A token that is valid goes as far as before, for it cannot go on with a gap. -/
theorem read_concat_gap_of_valid (hg : isGap g = true) {c : Char} {cs : List Char}
    (hvalid : (read c cs).kind ≠ .invalid) :
    read c (cs ++ [g]) = (read c cs).extend [g] := by
  have hends : ∀ d ∈ [g].head?, Ends d := fun d hd => by
    cases hd
    exact ends_of_isGap hg
  have hstop := (stopsAt_read c cs).append (stopsAt_of_ends hends _)
  have hadmits := admits_read hvalid
  have hsplit := read_text_append_rest c cs
  obtain ⟨d, ds, htext⟩ := List.exists_cons_of_ne_nil (read_text_ne_nil c cs)
  rw [htext] at hadmits hsplit
  obtain ⟨rfl, hcs⟩ := List.cons.inj hsplit
  have hsame : ds ++ ((read d cs).rest ++ [g]) = cs ++ [g] := by
    rw [← List.append_assoc]
    exact congrArg (· ++ [g]) hcs
  have hread := read_of_admits hadmits hstop
  rw [hsame, ← htext] at hread
  exact hread

/-- Where no text of a token starts, none does with a gap at the end. -/
theorem kind_read_concat_gap (hg : isGap g = true) {c : Char} {cs : List Char}
    (hinvalid : (read c cs).kind = .invalid) : (read c (cs ++ [g])).kind = .invalid := by
  rw [kind_read_eq_invalid_iff] at hinvalid ⊢
  rintro ⟨text, hne, hstart, kind, hadmits⟩
  obtain rfl | hstart : text = (c :: cs) ++ [g] ∨ text <+: c :: cs := List.prefix_concat_iff.mp hstart
  · rw [hadmits.isGap_last] at hg
    cases hg
  · exact hinvalid ⟨text, hne, hstart, kind, hadmits⟩

theorem read_concat_gap_of_invalid (hg : isGap g = true) {c : Char} {cs : List Char}
    (hinvalid : (read c cs).kind = .invalid) :
    read c (cs ++ [g]) = (read c cs).extend [g] ∨
      (read c cs).rest = [] ∧ (read c (cs ++ [g])).kind = .invalid ∧ (read c (cs ++ [g])).rest = [] := by
  have hinvalid' := kind_read_concat_gap hg hinvalid
  rw [read_of_invalid hinvalid, read_of_invalid hinvalid']
  by_cases hdouble : c = '"'
  · -- a quote that is never closed takes the gap with all the rest
    subst hdouble
    exact .inr ⟨List.drop_length, rfl, List.drop_length⟩
  · by_cases hsingle : c = '\''
    · subst hsingle
      cases cs with
      | nil => exact .inr ⟨rfl, rfl, rfl⟩
      | cons d ds => exact .inl rfl
    · rw [invalidPart_of_ne hdouble hsingle, invalidPart_of_ne hdouble hsingle]
      exact .inl rfl

/-- A gap character behind the text of a token stays behind it, unless the token is invalid and takes all there is. -/
theorem read_concat_gap (hg : isGap g = true) (c : Char) (cs : List Char) :
    read c (cs ++ [g]) = (read c cs).extend [g] ∨
      (read c cs).kind = .invalid ∧ (read c cs).rest = [] ∧ (read c (cs ++ [g])).kind = .invalid ∧
        (read c (cs ++ [g])).rest = [] := by
  by_cases hvalid : (read c cs).kind = .invalid
  · exact (read_concat_gap_of_invalid hg hvalid).imp_right fun hall => ⟨hvalid, hall⟩
  · exact .inl (read_concat_gap_of_valid hg hvalid)

end Lexeme

/-! ### The tokens of a line -/

/-- The tokens are of one kind, and have one text unless they are invalid. -/
structure Token.Matches (t u : Token) : Prop where
  kind : u.kind = t.kind
  text : t.kind ≠ .invalid → u.text = t.text

theorem Token.Matches.symm {t u : Token} (h : t.Matches u) : u.Matches t :=
  ⟨h.kind.symm, fun hvalid => (h.text (h.kind ▸ hvalid)).symm⟩

/-- Tokens that match are the same but for their places, if they are valid. -/
theorem Token.map_form_of_matches {ts us : List Token} (h : List.Forall₂ Token.Matches ts us)
    (hvalid : ∀ f ∈ ts.map form, f.kind ≠ .invalid) : us.map form = ts.map form := by
  induction h with
  | nil => rfl
  | @cons t u _ _ htu _ ih =>
    obtain ⟨ht, hts⟩ := List.forall_mem_cons.mp hvalid
    have hform : u.form = t.form := by rw [form, form, htu.kind, htu.text ht]
    rw [List.map_cons, List.map_cons, hform, ih hts]

namespace Scanner

theorem tokens_of_rest_eq_nil {s : Scanner} (h : s.rest = []) : s.tokens = [] :=
  tokens_of_next?_eq_none (next?_eq_none_iff.mpr (by rw [h]; rfl))

/-- With a gap character at the end of the line the scanner cuts off tokens that match. -/
theorem tokens_concat_gap (hg : isGap g = true) (s : Scanner) (offset : Nat) :
    List.Forall₂ Token.Matches s.tokens (tokens ⟨offset, s.rest ++ [g]⟩) := by
  induction s using tokens.induct generalizing offset with
  | case1 s hnone =>
    have hblank := next?_eq_none_iff.mp hnone
    have hnone' : next? ⟨offset, s.rest ++ [g]⟩ = none := by
      rw [next?_eq_none_iff]
      show (s.rest ++ [g]).dropWhile isGap = []
      rw [List.dropWhile_append, hblank]
      simp [hg]
    rw [tokens_of_next?_eq_none hnone, tokens_of_next?_eq_none hnone']
    exact .nil
  | case2 s t s' hnext ih =>
    obtain ⟨c, cs, hrest, hkind, htext, hs'⟩ := next?_eq_some hnext
    have hrest' : (s.rest ++ [g]).dropWhile isGap = c :: (cs ++ [g]) := by
      rw [List.dropWhile_append, hrest]
      rfl
    obtain ⟨u, s'', hnext', hform, hs''⟩ := next?_of_dropWhile (s := ⟨offset, s.rest ++ [g]⟩) hrest'
    obtain ⟨hkind', htext'⟩ := TokenForm.mk.inj hform
    rw [tokens_of_next?_eq_some hnext, tokens_of_next?_eq_some hnext']
    obtain hread | ⟨hinvalid, hover, hinvalid', hover'⟩ := read_concat_gap hg c cs
    · rw [hread] at hkind' htext' hs''
      refine .cons ⟨hkind'.trans hkind.symm, fun _ => htext'.trans htext.symm⟩ ?_
      have hmore := ih s''.offset
      rw [hs'] at hmore
      rwa [show s'' = ⟨s''.offset, (Lexeme.read c cs).rest ++ [g]⟩ from congrArg (Scanner.mk s''.offset) hs'']
    · -- the token is invalid, and the line is over behind it
      refine .cons ⟨(hkind'.trans hinvalid').trans (hkind.trans hinvalid).symm, fun hvalid => ?_⟩ ?_
      · exact absurd (hkind.trans hinvalid) hvalid
      · rw [tokens_of_rest_eq_nil (hs'.trans hover), tokens_of_rest_eq_nil (hs''.trans hover')]
        exact .nil

end Scanner

/-- The tokens of a line spell a statement with a gap at its end if and only if they do without it. -/
theorem TokenLine.forms_push_gap_iff (hg : isGap g = true) {text : String} {s : Statement} :
    (ofString (text.push g)).forms = s.spelling ↔ (ofString text).forms = s.spelling := by
  have hmatches : List.Forall₂ Token.Matches (ofString text).tokens (ofString (text.push g)).tokens := by
    have htokens := Scanner.tokens_concat_gap hg (.ofString text) 0
    rwa [Scanner.ofString, ← String.toList_push] at htokens
  have hvalid := (Weighs.statement s).1
  constructor
  · intro h
    rw [← h] at hvalid ⊢
    exact Token.map_form_of_matches (hmatches.flip.imp fun _ _ h => h.symm) hvalid
  · intro h
    rw [← h] at hvalid ⊢
    exact Token.map_form_of_matches hmatches hvalid

/-- A gap at the end of a line is no part of what the line says. -/
theorem Line.map_statement_push_gap (hg : isGap g = true) {number : Nat} {text : String} {s : Statement} :
    (ofText number (text.push g)).map statement = .ok s ↔ (ofText number text).map statement = .ok s := by
  by_cases hblank : allBlank text = true
  · rw [ofText, ofText, allBlank_push_gap hg, if_pos hblank, if_pos hblank]
  · have hblank' : ¬ allBlank (text.push g) = true := by rwa [allBlank_push_gap hg]
    by_cases hcomment : isComment text = true
    · have hcomment' : isComment (text.push g) = true := by rwa [isComment_push_gap hg]
      rw [ofText, ofText, if_neg hblank, if_neg hblank', if_pos hcomment, if_pos hcomment']
      rfl
    · have hcomment' : ¬ isComment (text.push g) = true := by rwa [isComment_push_gap hg]
      rw [map_statement_iff_spelling hblank hcomment, map_statement_iff_spelling hblank' hcomment',
        TokenLine.forms_push_gap_iff hg]

end LineCheck
