import LineCheck.Proofs.Token.Language

/-!
# LineCheck.Proofs.Token.LongestMatch — a token is the longest text there is

`IsTokenText` is the language of the tokens, of all kinds together.  A text in it is of one kind only
(`TokenKind.Admits.unique`), and where it could go on it can be extended to one that could not
(`TokenKind.Admits.completes`), which is what the scanner cuts off.  So the scanner gives the longest text in the
language that starts where it stands, and an invalid token exactly where none starts there
(`Scanner.next_longest_match`).
-/

namespace LineCheck

open Text Lexeme

/-- The text is one that a token of some kind has. -/
def IsTokenText (text : List Char) : Prop :=
  ∃ kind : TokenKind, kind.Admits text

/-- Of the texts of tokens that `cs` starts with, `text` is the longest one, and `kind` is the only kind that it has. -/
structure TokenKind.LongestIn (kind : TokenKind) (text cs : List Char) : Prop where
  start : text <+: cs
  admits : kind.Admits text
  longest : ∀ other, other <+: cs → IsTokenText other → other.length ≤ text.length
  unique : ∀ kind' : TokenKind, kind'.Admits text → kind' = kind

/-- What an invalid token takes off the front of a text: everything from a double quote on, a single quote and the
character behind it, and else one character. -/
def invalidPart : List Char → List Char
  | '"' :: cs => '"' :: cs
  | '\'' :: cs => '\'' :: cs.take 1
  | cs => cs.take 1

/-! ### Texts that go on -/

theorem Lexeme.IsWord.append {text more : List Char} (h : IsWord text) (hmore : ∀ d ∈ more, isWordChar d = true) :
    IsWord (text ++ more) := by
  obtain ⟨c, cs, rfl, hc, hcs⟩ := h
  exact ⟨c, cs ++ more, rfl, hc, List.forall_mem_append.mpr ⟨hcs, hmore⟩⟩

theorem Lexeme.IsInteger.append {text more : List Char} (h : IsInteger text) (hmore : ∀ d ∈ more, d.isDigit = true) :
    IsInteger (text ++ more) :=
  ⟨List.append_ne_nil_of_left_ne_nil h.1 more, List.forall_mem_append.mpr ⟨h.2, hmore⟩⟩

/-- An integer becomes a decimal with a point behind it, whether digits follow the point or not. -/
theorem Lexeme.IsInteger.append_point {text whole fraction : List Char} (h : IsInteger text)
    (hwhole : ∀ d ∈ whole, d.isDigit = true) (hfraction : ∀ d ∈ fraction, d.isDigit = true) :
    IsDecimal (text ++ (whole ++ '.' :: fraction)) := by
  obtain ⟨hne, hdigits⟩ := h.append hwhole
  exact ⟨text ++ whole, fraction, (List.append_assoc ..).symm, hdigits, hfraction, .inl hne⟩

theorem Lexeme.IsDecimal.append {text more : List Char} (h : IsDecimal text) (hmore : ∀ d ∈ more, d.isDigit = true) :
    IsDecimal (text ++ more) := by
  obtain ⟨whole, fraction, rfl, hwhole, hfraction, hne⟩ := h
  refine ⟨whole, fraction ++ more, by simp, hwhole, List.forall_mem_append.mpr ⟨hfraction, hmore⟩, ?_⟩
  exact hne.imp_right fun hfraction => List.append_ne_nil_of_left_ne_nil hfraction more

/-- A sign in front does not matter to how a number goes on. -/
theorem Lexeme.Signed.append {p q : List Char → Prop} {text more : List Char} (h : Signed p text)
    (hpq : ∀ t, p t → q (t ++ more)) : Signed q (text ++ more) := by
  obtain htext | ⟨c, cs, rfl, hsign, hcs⟩ := h
  · exact .inl (hpq text htext)
  · exact .inr ⟨c, cs ++ more, rfl, hsign, hpq cs hcs⟩

/-- With some of what follows it, the text is that of a token that cannot go on with the rest. -/
def Lexeme.Completes (text rest : List Char) : Prop :=
  ∃ (kind : TokenKind) (more rest' : List Char), rest = more ++ rest' ∧ kind.Admits (text ++ more) ∧ kind.StopsAt rest'

/-- A text that cannot go on is complete as it is. -/
theorem Lexeme.completes_of_stopsAt {kind : TokenKind} {text rest : List Char} (h : kind.Admits text)
    (hstop : kind.StopsAt rest) : Completes text rest :=
  ⟨kind, [], rest, rfl, by rwa [List.append_nil], hstop⟩

/-- A word goes on as far as the characters of words do. -/
theorem Lexeme.IsWord.completes {text : List Char} (h : IsWord text) (rest : List Char) : Completes text rest := by
  have hmore : ∀ d ∈ rest.takeWhile isWordChar, isWordChar d = true := fun d hd => List.mem_takeWhile_imp hd
  exact ⟨.ofWord (String.ofList (text ++ rest.takeWhile isWordChar)), _, _, List.takeWhile_append_dropWhile.symm,
    admits_ofWord (h.append hmore), stopsAt_ofWord (head?_dropWhile isWordChar rest) _⟩

namespace TokenKind

/-- Whatever follows it, the text of a token can be completed, perhaps to one of another kind. -/
theorem Admits.completes {kind : TokenKind} {text : List Char} (h : kind.Admits text) (rest : List Char) :
    Completes text rest := by
  cases kind with
  | endOfLine => exact h.elim
  | invalid => exact h.elim
  | identifier => exact h.1.completes rest
  | keyword k => exact IsWord.completes (h ▸ isWord_word k) rest
  | integer =>
    obtain ⟨digits, rest', hrest, hdigits, hstop, -⟩ | ⟨whole, fraction, rest', hrest, hwhole, hfraction, hstop, -⟩ :=
      unsigned_cases rest
    · exact ⟨.integer, digits, rest', hrest, Signed.append h fun _ ht => ht.append hdigits, hstop⟩
    · -- a point makes a decimal of it
      refine ⟨.double, whole ++ '.' :: fraction, rest', by simp [hrest], ?_, hstop⟩
      exact Signed.append h fun _ ht => ht.append_point hwhole hfraction
  | double =>
    have hdigits : ∀ d ∈ rest.takeWhile Char.isDigit, d.isDigit = true := fun d hd => List.mem_takeWhile_imp hd
    exact ⟨.double, _, _, List.takeWhile_append_dropWhile.symm, Signed.append h fun _ ht => ht.append hdigits,
      head?_dropWhile Char.isDigit rest⟩
  | string => exact completes_of_stopsAt h trivial
  | char => exact completes_of_stopsAt h trivial
  | symbol s => exact completes_of_stopsAt h trivial

theorem stopsAt_nil (kind : TokenKind) : kind.StopsAt [] := by
  cases kind <;> simp [StopsAt]

/-- A text is of one kind only. -/
theorem Admits.unique {kind kind' : TokenKind} {c : Char} {cs : List Char} (h : kind.Admits (c :: cs))
    (h' : kind'.Admits (c :: cs)) : kind = kind' := by
  have hread := read_of_admits h (stopsAt_nil kind)
  rw [read_of_admits h' (stopsAt_nil kind')] at hread
  exact (congrArg Lexeme.kind hread).symm

end TokenKind

namespace Lexeme

/-! ### What is cut off -/

variable {c : Char} {cs : List Char}

/-- Where the text of a token starts, it is cut off, perhaps with more behind it. -/
theorem exists_read_of_admits {kind : TokenKind} {text : List Char} (h : kind.Admits text) (hne : text ≠ [])
    (hstart : text <+: c :: cs) :
    ∃ (kind' : TokenKind) (more rest : List Char), kind'.Admits (text ++ more) ∧
      read c cs = ⟨kind', text ++ more, rest⟩ := by
  obtain ⟨rest, hrest⟩ := hstart
  obtain ⟨kind', more, rest', rfl, hadmits, hstop⟩ := h.completes rest
  obtain ⟨d, ds, rfl⟩ := List.exists_cons_of_ne_nil hne
  rw [List.cons_append, List.cons.injEq, ← List.append_assoc] at hrest
  obtain ⟨rfl, rfl⟩ := hrest
  exact ⟨kind', more, rest', hadmits, read_of_admits hadmits hstop⟩

theorem not_invalid_of_admits {kind : TokenKind} {text : List Char} (h : kind.Admits text) : kind ≠ .invalid := by
  rintro rfl
  exact h

/-- The token that is cut off is the longest there is, unless it is invalid. -/
theorem longestIn_read (h : (read c cs).kind ≠ .invalid) :
    (read c cs).kind.LongestIn (read c cs).text (c :: cs) := by
  have hadmits := admits_read h
  refine ⟨⟨_, read_text_append_rest c cs⟩, hadmits, ?_, ?_⟩
  · rintro other hstart ⟨kind, hother⟩
    by_cases hne : other = []
    · simp [hne]
    · obtain ⟨kind', more, rest, -, hread⟩ := exists_read_of_admits hother hne hstart
      simp [hread]
  · intro kind' hkind'
    obtain ⟨d, ds, htext⟩ := List.exists_cons_of_ne_nil (read_text_ne_nil c cs)
    rw [htext] at hadmits hkind'
    exact hkind'.unique hadmits

/-- The token that is cut off is invalid if and only if no text of a token starts there. -/
theorem kind_read_eq_invalid_iff :
    (read c cs).kind = .invalid ↔ ¬ ∃ text, text ≠ [] ∧ text <+: c :: cs ∧ IsTokenText text := by
  constructor
  · rintro h ⟨text, hne, hstart, kind, hadmits⟩
    obtain ⟨kind', more, rest, hmore, hread⟩ := exists_read_of_admits hadmits hne hstart
    rw [hread] at h
    exact not_invalid_of_admits hmore h
  · intro hnone
    by_contra hvalid
    exact hnone ⟨_, read_text_ne_nil c cs, ⟨_, read_text_append_rest c cs⟩, _, admits_read hvalid⟩

/-! ### What an invalid token takes -/

theorem text_quoted_of_invalid (h : (quoted cs).kind = .invalid) : (quoted cs).text = '"' :: cs := by
  unfold quoted at h ⊢
  split at h
  · cases h
  · rfl

theorem text_character_of_invalid : (character cs).kind = .invalid → (character cs).text = '\'' :: cs.take 1 := by
  unfold character
  split
  · exact fun h => nomatch h
  · exact fun h => nomatch h
  · exact fun _ => rfl
  · exact fun _ => rfl

theorem text_sign_of_invalid : (sign c cs).kind = .invalid → (sign c cs).text = [c] := by
  unfold sign
  split
  case h_10 => exact fun _ => rfl
  all_goals exact fun h => nomatch h

theorem invalidPart_of_ne (hdouble : c ≠ '"') (hsingle : c ≠ '\'') : invalidPart (c :: cs) = [c] := by
  rw [invalidPart]
  · rfl
  · rintro rest ⟨⟩
    exact hdouble rfl
  · rintro rest ⟨⟩
    exact hsingle rfl

theorem text_read_of_invalid (h : (read c cs).kind = .invalid) : (read c cs).text = invalidPart (c :: cs) := by
  unfold read at h ⊢
  by_cases hnumber : startsNumber (c :: cs) = true
  · rw [if_pos hnumber] at h
    exact absurd h (not_invalid_of_admits (admits_number hnumber))
  · rw [if_neg hnumber] at h ⊢
    by_cases hword : isWordStart c = true
    · rw [if_pos hword] at h
      exact absurd h (not_invalid_of_admits (admits_ofWord ⟨c, _, rfl, hword, fun d hd => List.mem_takeWhile_imp hd⟩))
    · rw [if_neg hword] at h ⊢
      by_cases hdouble : c = '"'
      · subst hdouble
        rw [if_pos rfl] at h ⊢
        exact text_quoted_of_invalid h
      · rw [if_neg hdouble] at h ⊢
        by_cases hsingle : c = '\''
        · subst hsingle
          rw [if_pos rfl] at h ⊢
          exact text_character_of_invalid h
        · rw [if_neg hsingle] at h ⊢
          rw [text_sign_of_invalid h, invalidPart_of_ne hdouble hsingle]

/-- An invalid token and what it leaves behind. -/
theorem read_of_invalid (h : (read c cs).kind = .invalid) :
    read c cs = ⟨.invalid, invalidPart (c :: cs), (c :: cs).drop (invalidPart (c :: cs)).length⟩ := by
  have htext := text_read_of_invalid h
  have hrest : (c :: cs).drop (read c cs).text.length = (read c cs).rest := by
    have hsplit := congrArg (List.drop (read c cs).text.length) (read_text_append_rest c cs)
    rwa [List.drop_left, eq_comm] at hsplit
  rw [← htext, ← h, hrest]

end Lexeme

/-! ### The next token -/

namespace Scanner

/-- Behind the gap `Scanner.next` cuts off the longest start that is an `IsTokenText`, with the one kind of this text
(`TokenKind.LongestIn`), and where there is none, an invalid token with the `invalidPart`. -/
theorem next_longest_match (s : Scanner) {ahead : List Char} (hahead : s.rest.dropWhile isGap = ahead)
    (hne : ahead ≠ []) :
    ∃ text rest : List Char, ahead = text ++ rest ∧
      s.next.1.text = String.ofList text ∧
      s.next.1.span.start = s.offset + byteLength (s.rest.takeWhile isGap) ∧
      s.next.1.span.stop = s.next.1.span.start + byteLength text ∧
      s.next.2 = ⟨s.next.1.span.stop, rest⟩ ∧
      ((∃ start, start ≠ [] ∧ start <+: ahead ∧ IsTokenText start) → s.next.1.kind.LongestIn text ahead) ∧
      ((¬ ∃ start, start ≠ [] ∧ start <+: ahead ∧ IsTokenText start) →
        s.next.1.kind = .invalid ∧ text = invalidPart ahead) := by
  obtain ⟨c, cs, rfl⟩ := List.exists_cons_of_ne_nil hne
  have hskip : s.skipGap = ⟨s.offset + byteLength (s.rest.takeWhile isGap), c :: cs⟩ := by rw [skipGap, hahead]
  have hnext : s.next = (.ofLexeme (s.offset + byteLength (s.rest.takeWhile isGap)) (Lexeme.read c cs),
      ⟨s.offset + byteLength (s.rest.takeWhile isGap) + byteLength (Lexeme.read c cs).text,
        (Lexeme.read c cs).rest⟩) := by
    rw [next, next?, hskip]
    rfl
  rw [hnext]
  refine ⟨_, _, (Lexeme.read_text_append_rest c cs).symm, rfl, rfl, rfl, rfl, fun hsome => ?_, fun hnone => ?_⟩
  · exact Lexeme.longestIn_read fun hinvalid => Lexeme.kind_read_eq_invalid_iff.mp hinvalid hsome
  · have hinvalid := Lexeme.kind_read_eq_invalid_iff.mpr hnone
    exact ⟨hinvalid, Lexeme.text_read_of_invalid hinvalid⟩

/-- With a point behind it a number goes on, past the shorter text that is one of a token already; a quote with two
characters before the next one starts no token. -/
theorem next_longest_match_point :
    let number : Scanner := ⟨3, [' ', '-', '5', '.', '.', '5']⟩
    let unclosed : Scanner := ⟨0, ['\'', 'x', 'y', '\'']⟩
    (number.rest.dropWhile isGap = ['-', '5', '.', '.', '5'] ∧ IsTokenText ['-', '5'] ∧
      number.next.1.kind.LongestIn ['-', '5', '.'] ['-', '5', '.', '.', '5'] ∧ number.next.1.span.stop = 7) ∧
    (unclosed.rest.dropWhile isGap = ['\'', 'x', 'y', '\''] ∧ unclosed.next.1.kind = .invalid ∧
      unclosed.next.1.text = "'x") := by
  intro number unclosed
  have hinteger : IsTokenText ['-', '5'] :=
    ⟨.integer, .inr ⟨'-', ['5'], rfl, rfl, List.cons_ne_nil _ _, List.all_eq_true.mp rfl⟩⟩
  have hnone : ¬ ∃ start, start ≠ [] ∧ start <+: ['\'', 'x', 'y', '\''] ∧ IsTokenText start :=
    Lexeme.kind_read_eq_invalid_iff.mp rfl
  obtain ⟨text, rest, -, htext, hstart, hstop, -, hlongest, -⟩ :=
    next_longest_match number (show _ = ['-', '5', '.', '.', '5'] from rfl) (List.cons_ne_nil _ _)
  obtain ⟨text', rest', -, htext', -, -, -, -, hinvalid⟩ :=
    next_longest_match unclosed (show _ = ['\'', 'x', 'y', '\''] from rfl) (List.cons_ne_nil _ _)
  obtain ⟨hkind, rfl⟩ := hinvalid hnone
  obtain rfl : text = ['-', '5', '.'] := String.ofList_injective (htext.symm.trans rfl)
  exact ⟨⟨rfl, hinteger, hlongest ⟨_, List.cons_ne_nil _ _, ⟨_, rfl⟩, hinteger⟩, hstop.trans (hstart ▸ rfl)⟩, rfl,
    hkind, htext'⟩

end Scanner

end LineCheck
