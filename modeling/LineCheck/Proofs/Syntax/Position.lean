import LineCheck.Proofs.Token.Tiling
import LineCheck.Syntax.Cursor

/-!
# LineCheck.Proofs.Syntax.Position — a cursor stays on its line

A cursor may be used in any order: it looks at tokens, takes single ones and parses statements, and after a failure it
goes on from where it stands.  An `Action` is one such use as data, and `Cursor.after` is the cursor behind a sequence
of them.  What an action can do is said once (`Action.next_cases`): nothing, a move by one token, or parsing.  So
whatever was done, the position is that of a token of the line, it never goes back, and the end of the line is not left
again (`position_on_line`).

A look ahead shows the token that many places after the position, or the end of the line, as long as the index of that
place is a 64-bit word (`exists_peekAt_iff`, `eq_of_peekAt`).  Past the last word it fails, also where the line is over
and its end should be shown (`peekAt_past_word`).
-/

namespace LineCheck

/-! ### The tokens of a line -/

namespace TokenLine

variable {text : String}

theorem standsIn {t : Token} (ht : t ∈ (ofString text).tokens) : t.StandsIn text :=
  (Scanner.ofString text).tiled_tokens.standsIn t ht

end TokenLine

namespace Cursor

attribute [ext] Cursor

/-! ### Uses of a cursor -/

/-- One use of a cursor: a look, a token to be taken, or a statement to be parsed. -/
inductive Action where
  | peek
  | peekAt (ahead : UInt64)
  | check (kind : TokenKind)
  | checkAt (ahead : UInt64) (kind : TokenKind)
  | advance
  | consume (kind : TokenKind)
  | expect (kind : TokenKind)
  | matchAny (kinds : List TokenKind)
  | parseLine
  deriving DecidableEq, Repr

/-- The cursor after the action, which may fail; a look does not move it, and neither does one that fails. -/
def Action.next (c : Cursor) : Action → Cursor
  | peek => c
  | peekAt _ => c
  | check _ => c
  | checkAt _ _ => c
  | advance => c.advance
  | consume kind => (c.consume kind).2
  | expect kind => (c.expect kind).2
  | matchAny kinds => (c.matchAny kinds).2
  | parseLine => c.parseLine.2

/-- The cursor after the actions, one after the other. -/
def after (c : Cursor) (actions : List Action) : Cursor :=
  actions.foldl Action.next c

/-- From `c` to `c'` the cursor moves on by one token, if that token is wanted and is not the end of the line; otherwise
it stays where it is. -/
structure TakesIf (c : Cursor) (wanted : Prop) (c' : Cursor) : Prop where
  moves : wanted → c.peek.kind ≠ .endOfLine → c'.position = c.position + 1
  stays : ¬ wanted ∨ c.peek.kind = .endOfLine → c' = c

variable {text : String} {c : Cursor}

@[simp] theorem after_nil (c : Cursor) : c.after [] = c := rfl

@[simp] theorem after_cons (c : Cursor) (a : Action) (actions : List Action) :
    c.after (a :: actions) = (a.next c).after actions := rfl

/-! ### Single tokens -/

theorem consume_snd (c : Cursor) (kind : TokenKind) :
    (c.consume kind).2 = if c.peek.kind = kind then c.advance else c := by
  by_cases hkind : c.peek.kind = kind <;> simp [consume, check, hkind]

theorem expect_snd (c : Cursor) (kind : TokenKind) :
    (c.expect kind).2 = if c.peek.kind = kind then c.advance else c := by
  by_cases hkind : c.peek.kind = kind <;> simp [expect, consume, check, hkind]

theorem matchAny_snd (c : Cursor) (kinds : List TokenKind) :
    (c.matchAny kinds).2 = if c.peek.kind ∈ kinds then c.advance else c := by
  have hany : kinds.any c.check = true ↔ c.peek.kind ∈ kinds := by simp [check]
  rw [matchAny, apply_ite Prod.snd]
  exact if_congr hany rfl rfl

/-- Only behind all other tokens the end of the line comes into sight. -/
theorem peek_kind_eq_endOfLine_iff (hline : c.line = .ofString text) :
    c.peek.kind = .endOfLine ↔ c.position = c.line.tokens.length := by
  constructor
  · intro hkind
    by_contra hne
    have hlt : c.position < c.line.tokens.length := Nat.lt_of_le_of_ne c.position_le hne
    have hpeek : c.peek = c.line.tokens[c.position] := by simp [peek, tokenAt, hlt]
    have hmem : c.peek ∈ (TokenLine.ofString text).tokens := by
      rw [← hline, hpeek]
      exact List.getElem_mem hlt
    exact (TokenLine.standsIn hmem).kind hkind
  · intro hend
    rw [peek, tokenAt, hend, List.getElem?_eq_none (Nat.le_refl _)]
    rfl

theorem takesIf_advance (c : Cursor) {wanted : Prop} [Decidable wanted] :
    c.TakesIf wanted (if wanted then c.advance else c) where
  moves hwanted hkind := by rw [if_pos hwanted, advance, dif_pos hkind]
  stays hstays := by
    split
    · next hwanted =>
      have hkind := hstays.resolve_left (not_not_intro hwanted)
      rw [advance, dif_neg (not_not_intro hkind)]
    · rfl

theorem takesIf_consume (c : Cursor) (kind : TokenKind) : c.TakesIf (c.peek.kind = kind) (c.consume kind).2 := by
  rw [consume_snd]
  exact c.takesIf_advance

theorem takesIf_expect (c : Cursor) (kind : TokenKind) : c.TakesIf (c.peek.kind = kind) (c.expect kind).2 := by
  rw [expect_snd]
  exact c.takesIf_advance

theorem takesIf_matchAny (c : Cursor) (kinds : List TokenKind) :
    c.TakesIf (c.peek.kind ∈ kinds) (c.matchAny kinds).2 := by
  rw [matchAny_snd]
  exact c.takesIf_advance

/-! ### Any actions -/

namespace Action

/-- An action leaves the cursor as it is, moves it on by one token, or parses. -/
theorem next_cases (c : Cursor) (a : Action) : a.next c = c ∨ a.next c = c.advance ∨ a.next c = c.parseLine.2 := by
  cases a with
  | advance => exact .inr (.inl rfl)
  | parseLine => exact .inr (.inr rfl)
  | consume kind =>
    rw [next, consume_snd]
    exact (ite_eq_or_eq _ _ _).symm.imp_right .inl
  | expect kind =>
    rw [next, expect_snd]
    exact (ite_eq_or_eq _ _ _).symm.imp_right .inl
  | matchAny kinds =>
    rw [next, matchAny_snd]
    exact (ite_eq_or_eq _ _ _).symm.imp_right .inl
  | _ => exact .inl rfl

/-- The line stays the same. -/
theorem line_next (c : Cursor) (a : Action) : (a.next c).text = c.text ∧ (a.next c).line = c.line := by
  rcases a.next_cases c with h | h | h <;> rw [h]
  · exact ⟨rfl, rfl⟩
  · rw [Cursor.advance]
    split <;> exact ⟨rfl, rfl⟩
  · exact ⟨rfl, rfl⟩

theorem position_le_next (c : Cursor) (a : Action) : c.position ≤ (a.next c).position := by
  rcases a.next_cases c with h | h | h <;> rw [h]
  · exact c.position_le_advance
  · exact c.position_le_parse Grammar.line

/-- At the end of the line a cursor can go neither back nor on. -/
theorem next_of_end (h : c.position = c.line.tokens.length) (a : Action) : a.next c = c := by
  obtain ⟨htext, hline⟩ := a.line_next c
  have hforward := a.position_le_next c
  have hbound := (a.next c).position_le
  rw [hline] at hbound
  exact Cursor.ext htext hline (by omega)

end Action

theorem line_after (c : Cursor) (actions : List Action) : (c.after actions).line = c.line := by
  induction actions generalizing c with
  | nil => rfl
  | cons a actions ih => rw [after_cons, ih, (a.line_next c).2]

theorem position_le_after (c : Cursor) (actions : List Action) : c.position ≤ (c.after actions).position := by
  induction actions generalizing c with
  | nil => exact Nat.le_refl _
  | cons a actions ih => exact (a.position_le_next c).trans (ih (a.next c))

theorem after_of_end (h : c.position = c.line.tokens.length) (actions : List Action) : c.after actions = c := by
  induction actions with
  | nil => rfl
  | cons a actions ih => rw [after_cons, a.next_of_end h, ih]

/-! ### Looking ahead -/

/-- A look ahead gives a token as long as its index is a word. -/
theorem exists_peekAt_iff (c : Cursor) (ahead : UInt64) :
    (∃ t, c.peekAt ahead = .ok t) ↔ c.position + ahead.toNat < UInt64.size := by
  by_cases hword : c.position + ahead.toNat < UInt64.size <;> simp [peekAt, hword]

/-- It is the token so many places after the position, or the end of the line. -/
theorem eq_of_peekAt {ahead : UInt64} {t : Token} (h : c.peekAt ahead = .ok t) :
    t = c.line.toList[c.position + ahead.toNat]?.getD c.line.last := by
  unfold peekAt at h
  split at h
  · cases h
    exact c.tokenAt_eq _
  · cases h

/-- Whatever was done, a cursor stands at a token of its line, never goes back, and stays at the end.  `peekAt` gives a
token if and only if its index is a word, and then the one so many places ahead, or the end of the line.  `consume`,
`expect` and `matchAny` move by one token that is wanted and not the end, and else not (`TakesIf`). -/
theorem position_on_line (text : String) (done : List Action) :
    let tokens := (TokenLine.ofString text).toList
    let last := (TokenLine.ofString text).last
    let c := (ofString text).after done
    (tokens[c.position]? = some c.peek ∧ (c.peek.kind = .endOfLine ↔ c.position + 1 = tokens.length)) ∧
    (∀ more, c.position ≤ (c.after more).position) ∧
    (c.peek.kind = .endOfLine → ∀ more, c.after more = c) ∧
    (∀ ahead : UInt64, ((∃ t, c.peekAt ahead = .ok t) ↔ c.position + ahead.toNat < UInt64.size) ∧
      ∀ t, c.peekAt ahead = .ok t → t = tokens[c.position + ahead.toNat]?.getD last) ∧
    (∀ kind, c.TakesIf (c.peek.kind = kind) (c.consume kind).2) ∧
    (∀ kind, c.TakesIf (c.peek.kind = kind) (c.expect kind).2) ∧
    ∀ kinds, c.TakesIf (c.peek.kind ∈ kinds) (c.matchAny kinds).2 := by
  intro tokens last c
  have hline : c.line = .ofString text := line_after (ofString text) done
  have hend := peek_kind_eq_endOfLine_iff hline
  refine ⟨⟨?_, ?_⟩, c.position_le_after, fun hkind => after_of_end (hend.mp hkind), fun ahead => ⟨?_, fun t ht => ?_⟩,
    c.takesIf_consume, c.takesIf_expect, c.takesIf_matchAny⟩
  · have hpeek := c.getElem?_position
    rwa [hline] at hpeek
  · rw [hend, hline]
    simp [tokens, TokenLine.toList]
  · exact c.exists_peekAt_iff ahead
  · have htoken := eq_of_peekAt ht
    rwa [hline] at htoken

/-- Parsing fails at the second token and fails there again; this token is taken then, and the line is over. -/
theorem position_on_line_failures :
    let c := (ofString "x 1").after [.parseLine, .parseLine]
    let ended := (ofString "x 1").after [.parseLine, .parseLine, .consume .integer]
    c.position = 1 ∧ c.peek.kind = .integer ∧ c.peekAt 1 = .ok (TokenLine.ofString "x 1").last ∧
      (c.consume .integer).2.position = 2 ∧ (c.consume .identifier).2 = c ∧
      ended.peek.kind = .endOfLine ∧ ∀ more, ended.after more = ended := by
  intro c ended
  have hposition : c.position = 1 := by decide +kernel
  have hkind : c.peek.kind = .integer := by decide +kernel
  have hended : ended.peek.kind = .endOfLine := by decide +kernel
  obtain ⟨-, -, -, hahead, hconsume, -⟩ := position_on_line "x 1" [.parseLine, .parseLine]
  obtain ⟨-, -, hstays, -⟩ := position_on_line "x 1" [.parseLine, .parseLine, .consume .integer]
  have hword : c.position + (1 : UInt64).toNat < UInt64.size := by rw [hposition]; decide
  have hlast : (TokenLine.ofString "x 1").toList[c.position + (1 : UInt64).toNat]?.getD
      (TokenLine.ofString "x 1").last = (TokenLine.ofString "x 1").last := by
    rw [hposition]
    decide +kernel
  obtain ⟨t, ht⟩ := (hahead 1).1.mpr hword
  obtain rfl := ((hahead 1).2 t ht).trans hlast
  have hmoves := (hconsume .integer).moves hkind (by rw [hkind]; decide)
  have hother : ¬ c.peek.kind = .identifier := by rw [hkind]; decide
  refine ⟨hposition, hkind, ht, ?_, (hconsume .identifier).stays (.inl hother), hended, hstays hended⟩
  rw [hmoves, hposition]

/-- At the end of a line a look as far ahead as a word can say fails, where the end of the line should be shown. -/
theorem peekAt_past_word :
    let tokens := (TokenLine.ofString "x").toList
    let last := (TokenLine.ofString "x").last
    let c := (ofString "x").after [.advance]
    c.peek = last ∧ c.peekAt 18446744073709551615 = .error .overflow ∧
      c.peekAt 18446744073709551615 ≠
        .ok (tokens[c.position + (18446744073709551615 : UInt64).toNat]?.getD last) := by
  decide +kernel

end Cursor

end LineCheck
