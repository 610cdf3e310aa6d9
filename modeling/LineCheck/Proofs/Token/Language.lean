import LineCheck.Token.Line
import Mathlib.Data.List.TakeWhile

/-!
# LineCheck.Proofs.Token.Language — which texts the tokens of a kind have

`TokenKind.Admits` is the language of each kind: words, numbers with or without a sign, quoted literals, symbols.  The
scanner is right about it in both directions.  What it cuts off has a text of its kind, unless it is invalid
(`Lexeme.admits_read`), and so has every token of a line (`Scanner.shaped_tokens`).  A text of a kind is cut off as a
whole where nothing follows that it could go on with (`Lexeme.read_of_admits`), whatever that kind is; and nothing that
it could go on with follows a token that is cut off (`Lexeme.stopsAt_read`).
-/

namespace LineCheck

open Text

namespace Lexeme

/-! ### Texts -/

/-- Letters, digits and underscores, and no digit first. -/
def IsWord (text : List Char) : Prop :=
  ∃ c cs, text = c :: cs ∧ isWordStart c = true ∧ ∀ d ∈ cs, isWordChar d = true

/-- Digits, at least one. -/
def IsInteger (text : List Char) : Prop :=
  text ≠ [] ∧ ∀ d ∈ text, d.isDigit = true

/-- A point between digits, of which one side may be missing. -/
def IsDecimal (text : List Char) : Prop :=
  ∃ whole fraction, text = whole ++ '.' :: fraction ∧ (∀ d ∈ whole, d.isDigit = true) ∧
    (∀ d ∈ fraction, d.isDigit = true) ∧ (whole ≠ [] ∨ fraction ≠ [])

/-- Such a text, perhaps with a sign before it. -/
def Signed (p : List Char → Prop) (text : List Char) : Prop :=
  p text ∨ ∃ c cs, text = c :: cs ∧ isSign c = true ∧ p cs

end Lexeme

open Lexeme

namespace TokenKind

/-- The text is one that a token of this kind has. -/
def Admits (kind : TokenKind) (text : List Char) : Prop :=
  match kind with
  | endOfLine => False
  | invalid => False
  | identifier => IsWord text ∧ ∀ k : Keyword, k.word.toList ≠ text
  | integer => Signed IsInteger text
  | double => Signed IsDecimal text
  | string => ∃ inside, text = '"' :: (inside ++ ['"']) ∧ '"' ∉ inside
  | char => text = ['\'', '\''] ∨ ∃ c, text = ['\'', c, '\''] ∧ c ≠ '\''
  | keyword k => text = k.word.toList
  | symbol s => text = s.text.toList

/-- A token of this kind cannot go on with what follows it. -/
def StopsAt (kind : TokenKind) (rest : List Char) : Prop :=
  match kind with
  | identifier => ∀ c ∈ rest.head?, isWordChar c = false
  | keyword _ => ∀ c ∈ rest.head?, isWordChar c = false
  | integer => ∀ c ∈ rest.head?, c.isDigit = false ∧ c ≠ '.'
  | double => ∀ c ∈ rest.head?, c.isDigit = false
  | _ => True

end TokenKind

namespace Lexeme

/-! ### Numbers -/

/-- The characters of a set go as far as the first character that is not in it. -/
theorem takeWhile_append_of_stop {p : Char → Bool} {as bs : List Char} (has : ∀ a ∈ as, p a = true)
    (hbs : ∀ b ∈ bs.head?, p b = false) : (as ++ bs).takeWhile p = as ∧ (as ++ bs).dropWhile p = bs := by
  rw [List.takeWhile_append_of_pos has, List.dropWhile_append_of_pos has]
  cases bs with
  | nil => simp
  | cons b bs =>
    have hb : p b = false := hbs b rfl
    simp [hb]

theorem head?_dropWhile (p : Char → Bool) (cs : List Char) : ∀ c ∈ (cs.dropWhile p).head?, p c = false := by
  intro c hc
  have hstop := List.head?_dropWhile_not p cs
  rw [Option.mem_def] at hc
  rwa [hc] at hstop

/-- A number starts with a digit, or with a point and a digit. -/
theorem startsUnsigned_cons (c : Char) (cs : List Char) :
    startsUnsigned (c :: cs) = (c.isDigit || c == '.' && cs.head?.any Char.isDigit) := by
  by_cases hc : c = '.'
  · subst hc
    cases cs <;> rfl
  · cases cs <;> simp [startsUnsigned, hc]

theorem startsNumber_eq_false {c : Char} (hsign : isSign c = false) (hdigit : c.isDigit = false) (hpoint : c ≠ '.')
    (cs : List Char) : startsNumber (c :: cs) = false := by
  simp [startsNumber, startsUnsigned_cons, hsign, hdigit, hpoint]

theorem unsigned_of_integer {ds rest : List Char} (hds : ∀ d ∈ ds, d.isDigit = true)
    (hrest : ∀ c ∈ rest.head?, c.isDigit = false ∧ c ≠ '.') : unsigned (ds ++ rest) = ⟨.integer, ds, rest⟩ := by
  obtain ⟨htake, hdrop⟩ := takeWhile_append_of_stop hds fun c hc => (hrest c hc).1
  unfold unsigned
  rw [hdrop, htake]
  split
  · exact absurd rfl (hrest '.' rfl).2
  · rfl

theorem unsigned_of_decimal {whole fraction rest : List Char} (hwhole : ∀ d ∈ whole, d.isDigit = true)
    (hfraction : ∀ d ∈ fraction, d.isDigit = true) (hrest : ∀ c ∈ rest.head?, c.isDigit = false) :
    unsigned (whole ++ '.' :: (fraction ++ rest)) = ⟨.double, whole ++ '.' :: fraction, rest⟩ := by
  have hpoint : ∀ c ∈ ('.' :: (fraction ++ rest)).head?, c.isDigit = false := by
    intro c hc
    cases hc
    rfl
  obtain ⟨htake, hdrop⟩ := takeWhile_append_of_stop hwhole hpoint
  obtain ⟨htake', hdrop'⟩ := takeWhile_append_of_stop hfraction hrest
  unfold unsigned
  rw [hdrop, htake]
  simp only [htake', hdrop']

/-- A number without a sign goes as far as its digits, and over a point and the digits behind it. -/
theorem unsigned_cases (cs : List Char) :
    (∃ ds rest, cs = ds ++ rest ∧ (∀ d ∈ ds, d.isDigit = true) ∧ (∀ c ∈ rest.head?, c.isDigit = false ∧ c ≠ '.') ∧
      unsigned cs = ⟨.integer, ds, rest⟩) ∨
    ∃ whole fraction rest, cs = whole ++ '.' :: (fraction ++ rest) ∧ (∀ d ∈ whole, d.isDigit = true) ∧
      (∀ d ∈ fraction, d.isDigit = true) ∧ (∀ c ∈ rest.head?, c.isDigit = false) ∧
      unsigned cs = ⟨.double, whole ++ '.' :: fraction, rest⟩ := by
  have hwhole : ∀ d ∈ cs.takeWhile Char.isDigit, d.isDigit = true := fun d hd => List.mem_takeWhile_imp hd
  have hsplit := List.takeWhile_append_dropWhile (p := Char.isDigit) (l := cs)
  by_cases hpoint : ∃ rest, cs.dropWhile Char.isDigit = '.' :: rest
  · obtain ⟨rest, hrest⟩ := hpoint
    have hfraction : ∀ d ∈ rest.takeWhile Char.isDigit, d.isDigit = true := fun d hd => List.mem_takeWhile_imp hd
    have hcs : cs = cs.takeWhile Char.isDigit ++ '.' :: (rest.takeWhile Char.isDigit ++ rest.dropWhile Char.isDigit) := by
      rw [List.takeWhile_append_dropWhile, ← hrest, hsplit]
    refine .inr ⟨_, _, _, hcs, hwhole, hfraction, head?_dropWhile _ _, ?_⟩
    have hcut := unsigned_of_decimal hwhole hfraction (head?_dropWhile Char.isDigit rest)
    rwa [← hcs] at hcut
  · have hrest : ∀ c ∈ (cs.dropWhile Char.isDigit).head?, c.isDigit = false ∧ c ≠ '.' := by
      refine fun c hc => ⟨head?_dropWhile _ _ c hc, ?_⟩
      rintro rfl
      obtain ⟨rest, hrest⟩ := List.head?_eq_some_iff.mp hc
      exact hpoint ⟨rest, hrest⟩
    refine .inl ⟨_, _, hsplit.symm, hwhole, hrest, ?_⟩
    have hcut := unsigned_of_integer hwhole hrest
    rwa [hsplit] at hcut

/-- What is cut off where a number starts is an integer or a decimal. -/
theorem unsigned_shape {cs : List Char} (h : startsUnsigned cs = true) :
    (unsigned cs).kind = .integer ∧ IsInteger (unsigned cs).text ∨
      (unsigned cs).kind = .double ∧ IsDecimal (unsigned cs).text := by
  obtain ⟨ds, rest, rfl, hds, hrest, heq⟩ | ⟨whole, fraction, rest, rfl, hwhole, hfraction, hrest, heq⟩ :=
    unsigned_cases cs
  · rw [heq]
    refine .inl ⟨rfl, ?_, hds⟩
    rintro rfl
    -- without a digit the text would have to start with a point
    cases rest with
    | nil => cases h
    | cons c rest =>
      obtain ⟨hdigit, hpoint⟩ := hrest c rfl
      simp [startsUnsigned_cons, hdigit, hpoint] at h
  · rw [heq]
    refine .inr ⟨rfl, whole, fraction, rfl, hwhole, hfraction, ?_⟩
    by_contra hempty
    obtain ⟨rfl, rfl⟩ : whole = [] ∧ fraction = [] := by simpa using hempty
    -- a point is no number without a digit behind it
    rw [List.nil_append, List.nil_append, startsUnsigned_cons] at h
    cases rest with
    | nil => cases h
    | cons c rest =>
      have hdigit : c.isDigit = false := hrest c rfl
      simp [hdigit] at h

theorem startsUnsigned_of_integer {ds : List Char} (hds : IsInteger ds) (rest : List Char) :
    startsUnsigned (ds ++ rest) = true := by
  obtain ⟨hne, hdigits⟩ := hds
  cases ds with
  | nil => exact absurd rfl hne
  | cons d ds =>
    have hd : d.isDigit = true := hdigits d List.mem_cons_self
    simp [startsUnsigned_cons, hd]

theorem startsUnsigned_of_decimal {text : List Char} (htext : IsDecimal text) (rest : List Char) :
    startsUnsigned (text ++ rest) = true := by
  obtain ⟨whole, fraction, rfl, hwhole, hfraction, hne⟩ := htext
  cases whole with
  | nil =>
    cases fraction with
    | nil => simp at hne
    | cons d ds =>
      have hd : d.isDigit = true := hfraction d List.mem_cons_self
      simp [startsUnsigned_cons, hd]
  | cons d ds =>
    have hd : d.isDigit = true := hwhole d List.mem_cons_self
    simp [startsUnsigned_cons, hd]

theorem eq_of_isSign {c : Char} (h : isSign c = true) : c = '+' ∨ c = '-' := by
  simpa [isSign] using h

/-- A sign is no part of a number without one. -/
theorem startsUnsigned_of_isSign {c : Char} (h : isSign c = true) (cs : List Char) :
    startsUnsigned (c :: cs) = false := by
  obtain rfl | rfl := eq_of_isSign h
  · rfl
  · rfl

/-- A number with or without a sign is cut off as the number without one is. -/
theorem read_of_signed {kind : TokenKind} {p : List Char → Prop} {rest : List Char}
    (hstart : ∀ text, p text → startsUnsigned (text ++ rest) = true)
    (hread : ∀ text, p text → unsigned (text ++ rest) = ⟨kind, text, rest⟩) {c : Char} {cs : List Char}
    (h : Signed p (c :: cs)) : read c (cs ++ rest) = ⟨kind, c :: cs, rest⟩ := by
  obtain hunsigned | ⟨c', cs', hsplit, hsign, hunsigned⟩ := h
  · have hstarts : startsUnsigned (c :: (cs ++ rest)) = true := hstart _ hunsigned
    have hsign : isSign c = false := by
      by_contra hc
      rw [startsUnsigned_of_isSign (by simpa using hc)] at hstarts
      cases hstarts
    have hnumber : startsNumber (c :: (cs ++ rest)) = true := by simp [startsNumber, hstarts]
    rw [read, if_pos hnumber, number, hsign, if_neg Bool.false_ne_true]
    exact hread _ hunsigned
  · cases hsplit
    have hnumber : startsNumber (c :: (cs ++ rest)) = true := by simp [startsNumber, hsign, hstart _ hunsigned]
    rw [read, if_pos hnumber, number, if_pos hsign, hread _ hunsigned, cons]

/-! ### Words -/

theorem toNat_of_isDigit {c : Char} (h : c.isDigit = true) : 48 ≤ c.toNat ∧ c.toNat ≤ 57 := by
  simp only [Char.isDigit, ge_iff_le, UInt32.le_iff_toNat_le, Bool.and_eq_true, decide_eq_true_eq] at h
  exact h

theorem toNat_of_isWordStart {c : Char} (h : isWordStart c = true) :
    65 ≤ c.toNat ∧ c.toNat ≤ 90 ∨ 97 ≤ c.toNat ∧ c.toNat ≤ 122 ∨ c.toNat = 95 := by
  have h : (c.isUpper || c.isLower || c == '_') = true := h
  simp only [Bool.or_eq_true, beq_iff_eq] at h
  rcases h with (hupper | hlower) | rfl
  · exact .inl (of_decide_eq_true hupper)
  · obtain ⟨hlo, hhi⟩ := Bool.and_eq_true_iff.mp hlower
    exact .inr (.inl ⟨of_decide_eq_true hlo, of_decide_eq_true hhi⟩)
  · exact .inr (.inr rfl)

/-- Where a word starts there is no number. -/
theorem startsNumber_of_isWordStart {c : Char} (h : isWordStart c = true) (cs : List Char) :
    startsNumber (c :: cs) = false := by
  have hcode := toNat_of_isWordStart h
  have hsign : isSign c = false := by
    rw [Bool.eq_false_iff]
    intro hsign
    obtain rfl | rfl := eq_of_isSign hsign
    · revert hcode; decide
    · revert hcode; decide
  have hdigit : c.isDigit = false := by
    rw [Bool.eq_false_iff]
    intro hdigit
    have hrange := toNat_of_isDigit hdigit
    omega
  have hpoint : c ≠ '.' := by
    rintro rfl
    revert hcode
    decide
  exact startsNumber_eq_false hsign hdigit hpoint cs

theorem read_of_isWord {c : Char} {cs rest : List Char} (h : IsWord (c :: cs))
    (hrest : ∀ d ∈ rest.head?, isWordChar d = false) :
    read c (cs ++ rest) = ⟨.ofWord (String.ofList (c :: cs)), c :: cs, rest⟩ := by
  obtain ⟨c, cs, hsplit, hc, hcs⟩ := h
  cases hsplit
  obtain ⟨htake, hdrop⟩ := takeWhile_append_of_stop hcs hrest
  rw [read, startsNumber_of_isWordStart hc, if_neg Bool.false_ne_true, if_pos hc, word, htake, hdrop]

theorem isWord_word (k : Keyword) : IsWord k.word.toList := by
  cases k with
  | type ty => cases ty <;> exact ⟨_, _, rfl, rfl, List.all_eq_true.mp rfl⟩
  | guard g => cases g <;> exact ⟨_, _, rfl, rfl, List.all_eq_true.mp rfl⟩
  | truth b => cases b <;> exact ⟨_, _, rfl, rfl, List.all_eq_true.mp rfl⟩
  | _ => exact ⟨_, _, rfl, rfl, List.all_eq_true.mp rfl⟩

/-- A word is an identifier, unless it is reserved. -/
theorem ofWord_eq_identifier {text : List Char} (h : ∀ k : Keyword, k.word.toList ≠ text) :
    TokenKind.ofWord (String.ofList text) = .identifier := by
  unfold TokenKind.ofWord
  cases hk : Keyword.ofWord? (String.ofList text) with
  | none => rfl
  | some k =>
    have hword := Keyword.ofWord?_eq_some_iff.mp hk
    exact absurd (by rw [hword, String.toList_ofList]) (h k)

theorem ofWord_word (k : Keyword) : TokenKind.ofWord k.word = .keyword k := by
  rw [TokenKind.ofWord, Keyword.ofWord?_word]
  rfl

theorem admits_ofWord {text : List Char} (h : IsWord text) : (TokenKind.ofWord (String.ofList text)).Admits text := by
  by_cases hreserved : ∃ k : Keyword, k.word.toList = text
  · obtain ⟨k, rfl⟩ := hreserved
    rw [String.ofList_toList, ofWord_word]
    rfl
  · have hfree : ∀ k : Keyword, k.word.toList ≠ text := fun k hk => hreserved ⟨k, hk⟩
    rw [ofWord_eq_identifier hfree]
    exact ⟨h, hfree⟩

/-! ### Words and numbers, character by character -/

/-- The characters of words and numbers. -/
def isPlainChar (c : Char) : Bool :=
  isWordChar c || isSign c || c == '.'

theorem isPlainChar_of_isWordChar {c : Char} (h : isWordChar c = true) : isPlainChar c = true := by
  simp [isPlainChar, h]

theorem isPlainChar_of_isDigit {c : Char} (h : c.isDigit = true) : isPlainChar c = true := by
  simp [isPlainChar, isWordChar, Char.isAlphanum, h]

theorem IsWord.isPlainChar {text : List Char} (h : IsWord text) : ∀ c ∈ text, isPlainChar c = true := by
  obtain ⟨c, cs, rfl, hc, hcs⟩ := h
  have hstart : isWordChar c = true := by
    rw [isWordStart, Bool.or_eq_true] at hc
    rw [isWordChar, Char.isAlphanum, Bool.or_eq_true, Bool.or_eq_true]
    exact hc.imp_left .inl
  exact List.forall_mem_cons.mpr ⟨isPlainChar_of_isWordChar hstart, fun d hd => isPlainChar_of_isWordChar (hcs d hd)⟩

theorem IsInteger.isPlainChar {text : List Char} (h : IsInteger text) : ∀ c ∈ text, isPlainChar c = true :=
  fun c hc => isPlainChar_of_isDigit (h.2 c hc)

theorem IsDecimal.isPlainChar {text : List Char} (h : IsDecimal text) : ∀ c ∈ text, isPlainChar c = true := by
  obtain ⟨whole, fraction, rfl, hwhole, hfraction, -⟩ := h
  exact List.forall_mem_append.mpr ⟨fun c hc => isPlainChar_of_isDigit (hwhole c hc),
    List.forall_mem_cons.mpr ⟨rfl, fun c hc => isPlainChar_of_isDigit (hfraction c hc)⟩⟩

theorem Signed.isPlainChar {p : List Char → Prop} (hp : ∀ text, p text → ∀ c ∈ text, isPlainChar c = true)
    {text : List Char} (h : Signed p text) : ∀ c ∈ text, isPlainChar c = true := by
  obtain htext | ⟨c, cs, rfl, hsign, hcs⟩ := h
  · exact hp text htext
  · exact List.forall_mem_cons.mpr ⟨by simp [Lexeme.isPlainChar, hsign], hp cs hcs⟩

/-! ### All kinds together -/

theorem admits_number {c : Char} {cs : List Char} (h : startsNumber (c :: cs) = true) :
    (number c cs).kind.Admits (number c cs).text := by
  unfold number
  split
  · next hsign =>
    have hstart : startsUnsigned cs = true := by
      simpa [startsNumber, hsign, startsUnsigned_of_isSign hsign] using h
    obtain ⟨hkind, hshape⟩ | ⟨hkind, hshape⟩ := unsigned_shape hstart
    · show (unsigned cs).kind.Admits (c :: (unsigned cs).text)
      rw [hkind]
      exact .inr ⟨c, _, rfl, hsign, hshape⟩
    · show (unsigned cs).kind.Admits (c :: (unsigned cs).text)
      rw [hkind]
      exact .inr ⟨c, _, rfl, hsign, hshape⟩
  · next hsign =>
    have hstart : startsUnsigned (c :: cs) = true := by simpa [startsNumber, hsign] using h
    obtain ⟨hkind, hshape⟩ | ⟨hkind, hshape⟩ := unsigned_shape hstart
    · rw [hkind]
      exact .inl hshape
    · rw [hkind]
      exact .inl hshape

theorem admits_quoted {cs : List Char} (h : (quoted cs).kind ≠ .invalid) : (quoted cs).kind.Admits (quoted cs).text := by
  revert h
  unfold quoted
  split
  · next q rest hdrop =>
    intro _
    have hq : q = '"' := by
      have hstop : (q != '"') = false := head?_dropWhile _ _ q (by rw [hdrop]; rfl)
      simpa using hstop
    subst hq
    exact ⟨_, rfl, fun hmem => by simpa using List.mem_takeWhile_imp hmem⟩
  · exact fun h => absurd rfl h

theorem admits_character {cs : List Char} (h : (character cs).kind ≠ .invalid) :
    (character cs).kind.Admits (character cs).text := by
  revert h
  unfold character
  split
  · exact fun _ => .inl rfl
  · next c rest hempty =>
    refine fun _ => .inr ⟨c, rfl, ?_⟩
    rintro rfl
    exact hempty rfl
  · exact fun h => absurd rfl h
  · exact fun h => absurd rfl h

theorem admits_sign {c : Char} {cs : List Char} (h : (sign c cs).kind ≠ .invalid) :
    (sign c cs).kind.Admits (sign c cs).text := by
  revert h
  unfold sign
  split
  case h_10 => exact fun h => absurd rfl h
  all_goals exact fun _ => rfl

/-- The token that is cut off has a text of its kind, unless it is invalid. -/
theorem admits_read {c : Char} {cs : List Char} (h : (read c cs).kind ≠ .invalid) :
    (read c cs).kind.Admits (read c cs).text := by
  unfold read at h ⊢
  by_cases hnumber : startsNumber (c :: cs) = true
  · rw [if_pos hnumber]
    exact admits_number hnumber
  · rw [if_neg hnumber] at h ⊢
    by_cases hword : isWordStart c = true
    · rw [if_pos hword]
      exact admits_ofWord ⟨c, _, rfl, hword, fun d hd => List.mem_takeWhile_imp hd⟩
    · rw [if_neg hword] at h ⊢
      by_cases hdouble : c = '"'
      · rw [if_pos hdouble] at h ⊢
        exact admits_quoted h
      · rw [if_neg hdouble] at h ⊢
        by_cases hsingle : c = '\''
        · rw [if_pos hsingle] at h ⊢
          exact admits_character h
        · rw [if_neg hsingle] at h ⊢
          exact admits_sign h

theorem quoted_of_not_mem {inside : List Char} (h : '"' ∉ inside) (rest : List Char) :
    quoted (inside ++ '"' :: rest) = ⟨.string, '"' :: (inside ++ ['"']), rest⟩ := by
  have hplain : ∀ d ∈ inside, (d != '"') = true := by
    intro d hd
    have hne : d ≠ '"' := fun heq => h (heq ▸ hd)
    simpa using hne
  have hquote : ∀ d ∈ ('"' :: rest).head?, (d != '"') = false := by
    intro d hd
    cases hd
    rfl
  obtain ⟨htake, hdrop⟩ := takeWhile_append_of_stop hplain hquote
  rw [quoted, hdrop, htake]

theorem character_of_ne {c : Char} (h : c ≠ '\'') (rest : List Char) :
    character (c :: '\'' :: rest) = ⟨.char, ['\'', c, '\''], rest⟩ := by
  unfold character
  split
  · next heq => cases heq; exact absurd rfl h
  · next heq => cases heq; rfl
  · next hno heq => cases heq; exact absurd rfl (hno rest)
  · next heq => cases heq

/-- A text of a kind is cut off as a whole where nothing follows that it could go on with. -/
theorem read_of_admits {kind : TokenKind} {c : Char} {cs rest : List Char} (h : kind.Admits (c :: cs))
    (hstop : kind.StopsAt rest) : read c (cs ++ rest) = ⟨kind, c :: cs, rest⟩ := by
  cases kind with
  | endOfLine => exact h.elim
  | invalid => exact h.elim
  | identifier =>
    obtain ⟨hword, hfree⟩ := h
    rw [read_of_isWord hword hstop, ofWord_eq_identifier hfree]
  | keyword k =>
    have htext : c :: cs = k.word.toList := h
    rw [read_of_isWord (htext ▸ isWord_word k) hstop, htext, String.ofList_toList, ofWord_word]
  | integer =>
    exact read_of_signed (fun _ ht => startsUnsigned_of_integer ht rest)
      (fun _ ht => unsigned_of_integer ht.2 hstop) h
  | double =>
    refine read_of_signed (fun _ ht => startsUnsigned_of_decimal ht rest) (fun text ht => ?_) h
    obtain ⟨whole, fraction, rfl, hwhole, hfraction, -⟩ := ht
    rw [List.append_assoc, List.cons_append]
    exact unsigned_of_decimal hwhole hfraction hstop
  | string =>
    obtain ⟨inside, htext, hinside⟩ := h
    cases htext
    show quoted (inside ++ ['"'] ++ rest) = _
    rw [List.append_assoc]
    exact quoted_of_not_mem hinside rest
  | char =>
    obtain htext | ⟨d, htext, hd⟩ := h
    · cases htext
      rfl
    · cases htext
      exact character_of_ne hd rest
  | symbol s => cases s <;> cases h <;> rfl

/-! ### Where a token ends -/

theorem stopsAt_unsigned (cs : List Char) : (unsigned cs).kind.StopsAt (unsigned cs).rest := by
  obtain ⟨_, _, -, -, hrest, heq⟩ | ⟨_, _, _, -, -, -, hrest, heq⟩ := unsigned_cases cs
  · rw [heq]
    exact hrest
  · rw [heq]
    exact hrest

/-- Whatever kind a word is of, it ends where its characters do. -/
theorem stopsAt_ofWord {rest : List Char} (h : ∀ c ∈ rest.head?, isWordChar c = false) (text : String) :
    (TokenKind.ofWord text).StopsAt rest := by
  unfold TokenKind.ofWord
  cases Keyword.ofWord? text with
  | none => exact h
  | some k => exact h

theorem stopsAt_word (c : Char) (cs : List Char) : (word c cs).kind.StopsAt (word c cs).rest :=
  stopsAt_ofWord (head?_dropWhile isWordChar cs) _

/-- As much is cut off as the token can go on with. -/
theorem stopsAt_read (c : Char) (cs : List Char) : (read c cs).kind.StopsAt (read c cs).rest := by
  unfold read
  split
  · unfold number
    split
    · exact stopsAt_unsigned cs
    · exact stopsAt_unsigned (c :: cs)
  · split
    · exact stopsAt_word c cs
    · split
      · unfold quoted; split <;> trivial
      · split
        · unfold character; split <;> trivial
        · unfold sign; split <;> trivial

end Lexeme

/-! ### The tokens of a line -/

/-- The text of the token is one of its kind, unless it is invalid. -/
def Token.Shaped (t : Token) : Prop :=
  t.kind ≠ .invalid → t.kind.Admits t.text.toList

theorem Token.Shaped.admits {t : Token} (ht : t.Shaped) {kind : TokenKind} (hkind : t.kind = kind)
    (hvalid : kind ≠ .invalid) : kind.Admits t.text.toList :=
  hkind ▸ ht (hkind ▸ hvalid)

namespace Scanner

variable {s s' : Scanner} {t : Token}

/-- There is no next token where nothing but a gap is left. -/
theorem next?_eq_none_iff : s.next? = none ↔ s.rest.dropWhile isGap = [] := by
  unfold next? skipGap
  split
  · next heq =>
    injection heq with _ hrest
    exact iff_of_true rfl hrest
  · next heq =>
    injection heq with _ hrest
    rw [hrest]
    exact iff_of_false (fun h => nomatch h) (fun h => nomatch h)

/-- The next token is cut off behind the gap. -/
theorem next?_eq_some (h : s.next? = some (t, s')) :
    ∃ c cs, s.rest.dropWhile isGap = c :: cs ∧ t.kind = (Lexeme.read c cs).kind ∧
      t.text = String.ofList (Lexeme.read c cs).text ∧ s'.rest = (Lexeme.read c cs).rest := by
  unfold next? skipGap at h
  split at h
  · cases h
  · next start c cs heq =>
    injection heq with _ hrest
    cases h
    exact ⟨c, cs, hrest, rfl, rfl, rfl⟩

theorem shaped_of_next? (h : s.next? = some (t, s')) : t.Shaped := by
  obtain ⟨c, cs, -, hkind, htext, -⟩ := next?_eq_some h
  intro hvalid
  rw [hkind] at hvalid
  rw [hkind, htext, String.toList_ofList]
  exact admits_read hvalid

/-- Every token of a line has a text of its kind, unless it is invalid. -/
theorem shaped_tokens (s : Scanner) : ∀ t ∈ s.tokens, t.Shaped := by
  fun_induction tokens s with
  | case1 s hnone => exact fun t ht => absurd ht List.not_mem_nil
  | case2 s t s' hnext ih =>
    intro u hu
    rcases List.mem_cons.mp hu with rfl | hu
    · exact shaped_of_next? hnext
    · exact ih u hu

end Scanner

end LineCheck
