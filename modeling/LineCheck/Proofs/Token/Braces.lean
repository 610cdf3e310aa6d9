import LineCheck.Text.Braces
import LineCheck.Proofs.Token.Language

/-!
# LineCheck.Proofs.Token.Braces — the braces of a line are those of its tokens

`Text.netBraces` counts braces on the characters of a line and knows of quotes only, the scanner cuts the line into
tokens.  Where no token is invalid the two agree (`netBracesFrom_scanner`): what the characters add to the number of
open braces is what the brace tokens add.  A comment is no exception, for its slashes are invalid tokens
(`exists_invalid_of_isComment`), so this holds of whole lines too (`netBraces_of_valid`).
-/

namespace LineCheck

namespace Text

/-! ### Characters that do not count -/

/-- The characters that counting braces looks at. -/
def markers : List Char := ['"', '\'', '{', '}']

/-- A set of characters that holds no marker. -/
theorem not_mem_markers {p : Char → Bool} (hp : markers.all (fun d => !p d) = true) {c : Char} (hc : p c = true) :
    c ∉ markers := by
  intro hmem
  have h := List.all_eq_true.mp hp c hmem
  simp [hc] at h

theorem netBracesFrom_cons_of_not_mem {c : Char} (hc : c ∉ markers) (cs : List Char) :
    netBracesFrom none (c :: cs) = netBracesFrom none cs := by
  simp only [markers, List.mem_cons, List.not_mem_nil, or_false, not_or] at hc
  obtain ⟨hdouble, hsingle, hopen, hclose⟩ := hc
  simp [netBracesFrom, isQuote, braceValue, hdouble, hsingle, hopen, hclose]

/-- Characters that are no markers add nothing. -/
theorem netBracesFrom_append_of_not_mem {as : List Char} (has : ∀ c ∈ as, c ∉ markers) (bs : List Char) :
    netBracesFrom none (as ++ bs) = netBracesFrom none bs := by
  induction as with
  | nil => rfl
  | cons a as ih =>
    rw [List.cons_append, netBracesFrom_cons_of_not_mem (has a List.mem_cons_self)]
    exact ih fun c hc => has c (List.mem_cons_of_mem a hc)

/-- Behind an opening quote nothing counts up to the next quote of its kind. -/
theorem netBracesFrom_quoted {q : Char} {as : List Char} (has : q ∉ as) (bs : List Char) :
    netBracesFrom (some q) (as ++ q :: bs) = netBracesFrom none bs := by
  induction as with
  | nil => simp [netBracesFrom]
  | cons a as ih =>
    have ha : a ≠ q := fun h => has (h ▸ List.mem_cons_self)
    rw [List.cons_append, netBracesFrom, if_neg ha]
    exact ih fun h => has (List.mem_cons_of_mem a h)

theorem netBracesFrom_cons_quote {q : Char} (hq : isQuote q = true) (cs : List Char) :
    netBracesFrom none (q :: cs) = netBracesFrom (some q) cs := by
  simp [netBracesFrom, hq]

/-- A line of blanks alone has no braces. -/
theorem netBraces_of_allBlank {line : String} (h : allBlank line = true) : netBraces line = 0 := by
  have hplain : ∀ c ∈ line.toList, c ∉ markers := fun c hc =>
    not_mem_markers (p := isBlank) (by decide) (List.all_eq_true.mp h c hc)
  have hnone := netBracesFrom_append_of_not_mem hplain []
  rw [List.append_nil] at hnone
  rw [netBraces, hnone]
  split <;> rfl

end Text

open Text

/-- What a token of this kind adds to the number of open braces. -/
def TokenKind.braces : TokenKind → Int
  | symbol .leftBrace => 1
  | symbol .rightBrace => -1
  | _ => 0

/-- What tokens of these kinds add together. -/
def TokenKind.bracesOf : List TokenKind → Int
  | [] => 0
  | kind :: kinds => kind.braces + bracesOf kinds

theorem TokenKind.bracesOf_append (as bs : List TokenKind) : bracesOf (as ++ bs) = bracesOf as + bracesOf bs := by
  induction as with
  | nil => exact (Int.zero_add _).symm
  | cons kind as ih => rw [List.cons_append, bracesOf, bracesOf, ih, Int.add_assoc]

theorem TokenKind.braces_eq (kind : TokenKind) :
    kind.braces = (if kind = .symbol .leftBrace then 1 else 0) - (if kind = .symbol .rightBrace then 1 else 0) := by
  cases kind with
  | symbol s => cases s <;> rfl
  | _ => rfl

/-- Together they add as many as open a brace, less as many as close one. -/
theorem TokenKind.bracesOf_eq_count (kinds : List TokenKind) :
    bracesOf kinds = kinds.count (.symbol .leftBrace) - kinds.count (.symbol .rightBrace) := by
  induction kinds with
  | nil => rfl
  | cons kind kinds ih =>
    rw [bracesOf, ih, braces_eq, List.count_cons, List.count_cons]
    simp only [beq_iff_eq]
    split <;> split <;> omega

namespace Lexeme

/-! ### One lexeme -/

/-- The lexeme adds to the count of braces what its kind says, before whatever follows it. -/
def Counts (l : Lexeme) : Prop :=
  netBracesFrom none (l.text ++ l.rest) = l.kind.braces + netBracesFrom none l.rest

/-- Words and numbers add nothing. -/
theorem counts_of_isPlainChar {l : Lexeme} (htext : ∀ c ∈ l.text, isPlainChar c = true) (hkind : l.kind.braces = 0) :
    l.Counts := by
  have hplain : ∀ c ∈ l.text, c ∉ markers := fun c hc => not_mem_markers (p := isPlainChar) (by decide) (htext c hc)
  rw [Counts, netBracesFrom_append_of_not_mem hplain, hkind, Int.zero_add]

/-- A lexeme with a text of its kind adds what its kind says: quotes hide what they enclose, and of all other
characters only those of the brace symbols count. -/
theorem counts_of_admits {l : Lexeme} (h : l.kind.Admits l.text) : l.Counts := by
  obtain ⟨kind, text, rest⟩ := l
  cases kind with
  | endOfLine => exact h.elim
  | invalid => exact h.elim
  | identifier => exact counts_of_isPlainChar h.1.isPlainChar rfl
  | keyword k => exact counts_of_isPlainChar (IsWord.isPlainChar (h ▸ isWord_word k)) rfl
  | integer => exact counts_of_isPlainChar (Signed.isPlainChar (fun _ => IsInteger.isPlainChar) h) rfl
  | double => exact counts_of_isPlainChar (Signed.isPlainChar (fun _ => IsDecimal.isPlainChar) h) rfl
  | string =>
    obtain ⟨inside, rfl, hinside⟩ := h
    show netBracesFrom none ('"' :: (inside ++ ['"']) ++ rest) = 0 + netBracesFrom none rest
    rw [List.cons_append, List.append_assoc, netBracesFrom_cons_quote rfl, List.singleton_append,
      netBracesFrom_quoted hinside, Int.zero_add]
  | char =>
    obtain rfl | ⟨c, rfl, hc⟩ := h
    · show netBracesFrom none ('\'' :: ([] ++ '\'' :: rest)) = 0 + netBracesFrom none rest
      rw [netBracesFrom_cons_quote rfl, netBracesFrom_quoted List.not_mem_nil, Int.zero_add]
    · have hinside : '\'' ∉ [c] := fun hmem => hc (List.mem_singleton.mp hmem).symm
      show netBracesFrom none ('\'' :: ([c] ++ '\'' :: rest)) = 0 + netBracesFrom none rest
      rw [netBracesFrom_cons_quote rfl, netBracesFrom_quoted hinside, Int.zero_add]
  | symbol s =>
    have htext : text = s.text.toList := h
    subst htext
    cases s <;> simp [Counts, Symbol.text, netBracesFrom, isQuote, braceValue, TokenKind.braces]

end Lexeme

/-! ### All tokens of a line -/

/-- A gap adds nothing. -/
theorem netBracesFrom_dropWhile_isGap (cs : List Char) :
    netBracesFrom none (cs.dropWhile isGap) = netBracesFrom none cs := by
  have hplain : ∀ c ∈ cs.takeWhile isGap, c ∉ markers := fun c hc =>
    not_mem_markers (p := isGap) (by decide) (List.mem_takeWhile_imp hc)
  have hsplit := netBracesFrom_append_of_not_mem hplain (cs.dropWhile isGap)
  rw [List.takeWhile_append_dropWhile] at hsplit
  exact hsplit.symm

/-- Where every token is valid, the characters add to the number of open braces what the tokens add. -/
theorem netBracesFrom_scanner (s : Scanner) (h : ∀ t ∈ s.tokens, t.kind ≠ .invalid) :
    netBracesFrom none s.rest = TokenKind.bracesOf (s.tokens.map Token.kind) := by
  rw [← netBracesFrom_dropWhile_isGap]
  fun_induction Scanner.tokens s with
  | case1 s hnone =>
    rw [Scanner.next?_eq_none_iff.mp hnone]
    rfl
  | case2 s t s' hnext ih =>
    obtain ⟨hvalid, hmore⟩ := List.forall_mem_cons.mp h
    obtain ⟨c, cs, hdrop, hkind, -, hrest⟩ := Scanner.next?_eq_some hnext
    rw [hkind] at hvalid
    have hcounts := Lexeme.counts_of_admits (Lexeme.admits_read hvalid)
    rw [Lexeme.Counts, Lexeme.read_text_append_rest] at hcounts
    rw [hdrop, hcounts, List.map_cons, TokenKind.bracesOf, hkind, ← hrest, ← ih hmore, netBracesFrom_dropWhile_isGap]

/-- The first slash of a comment is an invalid token. -/
theorem exists_invalid_of_isComment {line : String} (h : isComment line = true) :
    ∃ t ∈ (TokenLine.ofString line).tokens, t.kind = .invalid := by
  obtain ⟨rest, hrest⟩ := List.isPrefixOf_iff_prefix.mp h
  have hnext : ∃ t s', (Scanner.ofString line).next? = some (t, s') ∧ t.kind = .invalid := by
    rw [Scanner.ofString, ← hrest]
    exact ⟨_, _, rfl, rfl⟩
  obtain ⟨t, s', hnext, hkind⟩ := hnext
  refine ⟨t, ?_, hkind⟩
  rw [TokenLine.ofString, Scanner.tokens_of_next?_eq_some hnext]
  exact List.mem_cons_self

/-- Where every token of a line is valid, the line opens and closes the braces that its tokens do. -/
theorem netBraces_of_valid {line : String} (h : ∀ t ∈ (TokenLine.ofString line).tokens, t.kind ≠ .invalid) :
    netBraces line = TokenKind.bracesOf ((TokenLine.ofString line).tokens.map Token.kind) := by
  have hcomment : ¬ isComment line = true := by
    intro hcomment
    obtain ⟨t, ht, hkind⟩ := exists_invalid_of_isComment hcomment
    exact h t ht hkind
  rw [netBraces, if_neg hcomment]
  exact netBracesFrom_scanner (Scanner.ofString line) h

end LineCheck
