import LineCheck.Proofs.Token.Language
import Mathlib.Data.String.Basic
import Mathlib.Tactic.IntervalCases

/-!
# LineCheck.Proofs.Token.Tiling — the tokens of a line and the gaps between them

What a scanner leaves out before a token is a gap, and what it cuts off is the text of the token, so gaps and tokens in
turn make up the line (`Tiled`, `Scanner.tiled_tokens`).  From this follows where the tokens stand, that none of them
overlaps the next, and that nothing but gap characters stands between them (`tokens_tile`).  A scanner that has come to
the end of its line stays there (`Scanner.run_tokens`).
-/

namespace LineCheck

open Text

/-- The bytes of a text are those of its characters. -/
theorem Text.byteLength_toList (text : String) : byteLength text.toList = text.utf8ByteSize := by
  have hlen : ∀ cs : List Char, byteLength cs = String.utf8Len cs := by
    intro cs
    induction cs with
    | nil => rfl
    | cons c cs ih =>
      rw [byteLength_cons, String.utf8Len_cons, ih]
      exact Nat.add_comm _ _
  rw [hlen, ← String.utf8ByteSize_ofList, String.ofList_toList]

/-- The six characters that may stand between two tokens. -/
def Text.gapCharacters : List Char :=
  [' ', '\t', '\n', '\x0b', '\x0c', '\r']

theorem Text.mem_gapCharacters_iff {c : Char} : c ∈ gapCharacters ↔ isGap c = true := by
  constructor
  · exact List.all_eq_true.mp (show gapCharacters.all isGap = true from rfl) c
  · intro h
    simp only [isGap, Bool.or_eq_true, beq_iff_eq, Bool.and_eq_true, decide_eq_true_eq] at h
    rcases h with rfl | ⟨hlow, hhigh⟩
    · exact List.mem_cons_self
    · have hcode : c = Char.ofNat c.toNat := (Char.ofNat_toNat c).symm
      generalize c.toNat = code at hlow hhigh hcode
      subst hcode
      interval_cases code <;> decide

/-! ### Gaps and tokens in turn -/

/-- The characters, of which the first stands at byte `offset`, are a gap and a token in turn, with a gap at the end. -/
inductive Tiled : Nat → List Char → List Token → Prop where
  | gap {offset : Nat} {gap : List Char} (blank : ∀ c ∈ gap, isGap c = true) : Tiled offset gap []
  | token {offset : Nat} {gap text rest : List Char} {t : Token} {ts : List Token}
      (blank : ∀ c ∈ gap, isGap c = true) (kind : t.kind ≠ .endOfLine) (nonempty : text ≠ [])
      (shows : t.text = String.ofList text) (start : t.span.start = offset + byteLength gap)
      (stop : t.span.stop = t.span.start + byteLength text) (more : Tiled t.span.stop rest ts) :
      Tiled offset (gap ++ (text ++ rest)) (t :: ts)

/-- A text that is cut off is no end of a line. -/
theorem Lexeme.kind_read_ne_endOfLine (c : Char) (cs : List Char) : (read c cs).kind ≠ .endOfLine := by
  intro hend
  have hadmits : (read c cs).kind.Admits (read c cs).text := admits_read (by simp [hend])
  rw [hend] at hadmits
  exact hadmits

namespace Scanner

variable {s s' : Scanner} {t : Token}

/-- Where there is a next token, it is cut off behind the gap, and the scanner stands behind it then. -/
theorem exists_lexeme_of_next? (h : s.next? = some (t, s')) :
    ∃ c cs, s.rest.dropWhile isGap = c :: cs ∧
      t = .ofLexeme (s.offset + byteLength (s.rest.takeWhile isGap)) (Lexeme.read c cs) ∧
      s' = ⟨t.span.stop, (Lexeme.read c cs).rest⟩ := by
  unfold next? skipGap at h
  split at h
  · cases h
  · next start c cs heq =>
    injection heq with hstart hrest
    cases h
    exact ⟨c, cs, hrest, by rw [hstart], rfl⟩

/-- The gaps and the tokens of a scanner make up what it has before it. -/
theorem tiled_tokens (s : Scanner) : Tiled s.offset s.rest s.tokens := by
  fun_induction tokens s with
  | case1 s hnone =>
    have hblank := next?_eq_none_iff.mp hnone
    exact .gap (List.dropWhile_eq_nil_iff.mp hblank)
  | case2 s t s' hnext ih =>
    obtain ⟨c, cs, hrest, rfl, rfl⟩ := exists_lexeme_of_next? hnext
    have hsplit : s.rest.takeWhile isGap ++ ((Lexeme.read c cs).text ++ (Lexeme.read c cs).rest) = s.rest := by
      rw [Lexeme.read_text_append_rest, ← hrest, List.takeWhile_append_dropWhile]
    have hblank : ∀ d ∈ s.rest.takeWhile isGap, isGap d = true := fun d hd => List.mem_takeWhile_imp hd
    have htiled := Tiled.token hblank (Lexeme.kind_read_ne_endOfLine c cs) (Lexeme.read_text_ne_nil c cs) rfl rfl rfl ih
    rwa [hsplit] at htiled

end Scanner

/-! ### Where the tokens stand -/

/-- At its span the line shows the text of the token, which is not empty and starts and ends between two characters. -/
structure Token.StandsIn (t : Token) (line : String) : Prop where
  kind : t.kind ≠ .endOfLine
  nonempty : t.span.start < t.span.stop
  inside : t.span.stop ≤ line.utf8ByteSize
  boundaries : ∃ before after : String, line = before ++ t.text ++ after ∧ t.span.start = before.utf8ByteSize ∧
    t.span.stop = (before ++ t.text).utf8ByteSize
  slice : t.span.slice line = t.text

/-- The byte is one of those that the span covers. -/
def Span.Covers (s : Span) (byte : Nat) : Prop :=
  s.start ≤ byte ∧ byte < s.stop

/-- The texts of two lists in turn, the first list first. -/
def weave : List String → List String → String
  | [], _ => ""
  | a :: _, [] => a
  | a :: as, b :: bs => a ++ b ++ weave as bs

/-- The spans `gaps` are those between the tokens, before the first of them and behind the last, up to byte `stop`; all
that stands there in the line is gap characters, and with the tokens they cover each byte. -/
structure GapsBetween (line : String) (start stop : Nat) (ts : List Token) (gaps : List Span) : Prop where
  starts : gaps.map Span.start = start :: ts.map (·.span.stop)
  stops : gaps.map Span.stop = ts.map (·.span.start) ++ [stop]
  blank : ∀ g ∈ gaps, ∀ c ∈ (g.slice line).toList, c ∈ gapCharacters
  covered : ∀ byte, start ≤ byte → byte < stop → (∃ t ∈ ts, t.span.Covers byte) ∨ ∃ g ∈ gaps, g.Covers byte

namespace Tiled

variable {offset : Nat} {cs : List Char} {ts : List Token}

/-- A tile stands where the tiles before it end. -/
theorem exists_text (h : Tiled offset cs ts) {t : Token} (ht : t ∈ ts) :
    t.kind ≠ .endOfLine ∧ ∃ before text after, cs = before ++ (text ++ after) ∧ text ≠ [] ∧
      t.text = String.ofList text ∧ t.span.start = offset + byteLength before ∧
      t.span.stop = t.span.start + byteLength text := by
  induction h with
  | gap _ => cases ht
  | @token offset gap text rest u us _ kind nonempty shows start stop _ ih =>
    rcases List.mem_cons.mp ht with rfl | hmore
    · exact ⟨kind, gap, text, rest, rfl, nonempty, shows, start, stop⟩
    · obtain ⟨hkind, before, text', after, rfl, hne, htext, hstart, hstop⟩ := ih hmore
      refine ⟨hkind, gap ++ (text ++ before), text', after, by simp only [List.append_assoc], hne, htext, ?_, hstop⟩
      rw [hstart, stop, start, byteLength_append, byteLength_append]
      omega

theorem ordered (h : Tiled offset cs ts) : ts.Pairwise fun t u => t.span.stop ≤ u.span.start := by
  induction h with
  | gap _ => exact .nil
  | token _ _ _ _ _ _ more ih =>
    refine .cons (fun u hu => ?_) ih
    obtain ⟨-, before, -, -, -, -, -, hstart, -⟩ := more.exists_text hu
    omega

theorem standsIn {line : String} (h : Tiled 0 line.toList ts) : ∀ t ∈ ts, t.StandsIn line := by
  intro t ht
  obtain ⟨hkind, before, text, after, hline, hne, htext, hstart, hstop⟩ := h.exists_text ht
  have hpos : 0 < byteLength text := Nat.lt_of_lt_of_le (List.length_pos_iff.mpr hne) (length_le_byteLength text)
  have hsize : line.utf8ByteSize = byteLength before + (byteLength text + byteLength after) := by
    rw [← byteLength_toList, hline, byteLength_append, byteLength_append]
  have hparts : line = String.ofList (before ++ (text ++ after)) := by rw [← hline, String.ofList_toList]
  refine ⟨hkind, by omega, by omega, ⟨String.ofList before, String.ofList after, ?_, ?_, ?_⟩, ?_⟩
  · rw [hparts, htext, String.ofList_append, String.ofList_append, String.append_assoc]
  · rw [← byteLength_toList, String.toList_ofList]
    omega
  · rw [← byteLength_toList, String.toList_append, htext, String.toList_ofList, String.toList_ofList,
      byteLength_append]
    omega
  · rw [hparts, htext]
    exact Span.slice_append before text after t.span (by omega) (by omega)

/-- Before, between and behind the tokens there are gaps, and gaps and tokens in turn give the text back. -/
theorem exists_gaps {line : String} {before : List Char} (h : Tiled offset cs ts) (hoffset : offset = byteLength before)
    (hline : line.toList = before ++ cs) :
    ∃ gaps, GapsBetween line offset line.utf8ByteSize ts gaps ∧
      String.ofList cs = weave (gaps.map (·.slice line)) (ts.map Token.text) := by
  have hsize : line.utf8ByteSize = offset + byteLength cs := by
    rw [← byteLength_toList, hline, byteLength_append, hoffset]
  induction h generalizing before with
  | @gap offset gap blank =>
    have hslice : ∀ g : Span, g.start = offset → g.stop = line.utf8ByteSize → g.slice line = String.ofList gap := by
      intro g hstart hstop
      have hparts : line = String.ofList (before ++ (gap ++ [])) := by
        rw [List.append_nil, ← hline, String.ofList_toList]
      rw [hparts]
      exact Span.slice_append before gap [] g (hstart.trans hoffset) (by omega)
    refine ⟨[⟨offset, line.utf8ByteSize, by omega⟩], ⟨rfl, rfl, ?_, ?_⟩, ?_⟩
    · intro g hg c hc
      obtain rfl := List.mem_singleton.mp hg
      rw [hslice _ rfl rfl, String.toList_ofList] at hc
      exact mem_gapCharacters_iff.mpr (blank c hc)
    · intro byte hlow hhigh
      exact .inr ⟨_, List.mem_singleton_self _, hlow, hhigh⟩
    · exact (hslice _ rfl rfl).symm
  | @token offset gap text rest t ts blank _ _ shows start stop _ ih =>
    have hslice : ∀ g : Span, g.start = offset → g.stop = t.span.start → g.slice line = String.ofList gap := by
      intro g hstart hstop
      have hparts : line = String.ofList (before ++ (gap ++ (text ++ rest))) := by rw [← hline, String.ofList_toList]
      rw [hparts]
      exact Span.slice_append before gap (text ++ rest) g (hstart.trans hoffset) (by omega)
    -- behind the token the line goes on with another gap
    have hbehind : t.span.stop = byteLength (before ++ (gap ++ text)) := by
      rw [byteLength_append, byteLength_append]
      omega
    have hrest : line.toList = before ++ (gap ++ text) ++ rest := by simp only [hline, List.append_assoc]
    rw [byteLength_append, byteLength_append] at hsize
    obtain ⟨gaps, hgaps, hweave⟩ := ih hbehind hrest (by omega)
    refine ⟨⟨offset, t.span.start, by omega⟩ :: gaps, ⟨?_, ?_, ?_, ?_⟩, ?_⟩
    · rw [List.map_cons, hgaps.starts, List.map_cons]
    · rw [List.map_cons, hgaps.stops, List.map_cons, List.cons_append]
    · intro g hg c hc
      rcases List.mem_cons.mp hg with rfl | hg
      · rw [hslice _ rfl rfl, String.toList_ofList] at hc
        exact mem_gapCharacters_iff.mpr (blank c hc)
      · exact hgaps.blank g hg c hc
    · intro byte hlow hhigh
      by_cases hgap : byte < t.span.start
      · exact .inr ⟨_, List.mem_cons_self, hlow, hgap⟩
      · by_cases htext : byte < t.span.stop
        · exact .inl ⟨t, List.mem_cons_self, by omega, htext⟩
        · obtain ⟨u, hu, hcovers⟩ | ⟨g, hg, hcovers⟩ := hgaps.covered byte (by omega) hhigh
          · exact .inl ⟨u, List.mem_cons_of_mem _ hu, hcovers⟩
          · exact .inr ⟨g, List.mem_cons_of_mem _ hg, hcovers⟩
    · rw [List.map_cons, List.map_cons, weave, hslice _ rfl rfl, ← hweave, shows, String.ofList_append,
        String.ofList_append, String.append_assoc]

end Tiled

/-! ### The end of the line -/

namespace Scanner

variable {s s' : Scanner} {t : Token}

/-- Where nothing but a gap is left, each further token is the one at the end of the line. -/
theorem run_of_next?_eq_none (h : s.next? = none) (count : Nat) :
    s.run count = List.replicate count (.endOfLine (s.offset + byteLength s.rest)) := by
  have hrest := next?_eq_none_iff.mp h
  have hgap : s.rest.takeWhile isGap = s.rest := by
    rw [← List.append_nil (s.rest.takeWhile isGap), ← hrest, List.takeWhile_append_dropWhile]
  have hskip : s.skipGap = ⟨s.offset + byteLength s.rest, []⟩ := by rw [skipGap, hrest, hgap]
  induction count generalizing s with
  | zero => rfl
  | succ count ih =>
    have hnext : s.next = (.endOfLine (s.offset + byteLength s.rest), s.skipGap) := by
      rw [next, h, hskip]
      rfl
    have hstays : s.skipGap.next? = none := next?_eq_none_iff.mpr (by rw [hskip]; rfl)
    rw [run, hnext, List.replicate_succ, ih hstays (by rw [hskip]; rfl) (by rw [hskip]; rfl) (by rw [hskip]; rfl),
      hskip]
    rfl

/-- The bytes that a step passes are no longer before the scanner. -/
theorem offset_add_byteLength_of_next? (h : s.next? = some (t, s')) :
    s'.offset + byteLength s'.rest = s.offset + byteLength s.rest := by
  obtain ⟨c, cs, hrest, rfl, rfl⟩ := exists_lexeme_of_next? h
  have hsplit := congrArg byteLength (List.takeWhile_append_dropWhile (p := isGap) (l := s.rest))
  have hread := congrArg byteLength (Lexeme.read_text_append_rest c cs)
  rw [byteLength_append, hrest] at hsplit
  rw [byteLength_append] at hread
  simp only [Token.ofLexeme]
  omega

/-- Asked for tokens again and again, the scanner gives those of the line and then for ever the one at its end. -/
theorem run_tokens (s : Scanner) (more : Nat) :
    s.run (s.tokens.length + more) =
      s.tokens ++ List.replicate more (.endOfLine (s.offset + byteLength s.rest)) := by
  fun_induction tokens s with
  | case1 s hnone => rw [List.length_nil, Nat.zero_add, run_of_next?_eq_none hnone, List.nil_append]
  | case2 s t s' hnext ih =>
    rw [List.length_cons, Nat.add_right_comm, run, next, hnext, Option.getD_some, ih,
      offset_add_byteLength_of_next? hnext, List.cons_append]

end Scanner

/-- Each token `Token.StandsIn` the line, in order and without overlap, and `GapsBetween` them there is nothing but gap
characters, so `weave` gives the line back.  Asked for more, `Scanner.run` repeats the token at the end. -/
theorem tokens_tile (line : String) :
    (TokenLine.ofString line).toList =
        (TokenLine.ofString line).tokens ++ [.endOfLine line.utf8ByteSize] ∧
      (∀ t ∈ (TokenLine.ofString line).tokens, t.StandsIn line) ∧
      ((TokenLine.ofString line).tokens.Pairwise fun t u => t.span.stop ≤ u.span.start) ∧
      (∃ gaps, GapsBetween line 0 line.utf8ByteSize (TokenLine.ofString line).tokens gaps ∧
        line = weave (gaps.map (·.slice line)) ((TokenLine.ofString line).tokens.map (·.span.slice line))) ∧
      ∀ more, (Scanner.ofString line).run ((TokenLine.ofString line).toList.length + more) =
        (TokenLine.ofString line).toList ++ List.replicate more (.endOfLine line.utf8ByteSize) := by
  have htiled : Tiled 0 line.toList (TokenLine.ofString line).tokens := (Scanner.ofString line).tiled_tokens
  have hlast : (TokenLine.ofString line).toList =
      (TokenLine.ofString line).tokens ++ [.endOfLine line.utf8ByteSize] := by
    rw [TokenLine.toList, TokenLine.last, ← byteLength_toList]
    rfl
  have hstands := htiled.standsIn
  refine ⟨hlast, hstands, htiled.ordered, ?_, fun more => ?_⟩
  · obtain ⟨gaps, hgaps, hweave⟩ := htiled.exists_gaps (show 0 = byteLength [] from rfl) rfl
    refine ⟨gaps, hgaps, ?_⟩
    rw [String.ofList_toList] at hweave
    rwa [List.map_congr_left fun t ht => (hstands t ht).slice]
  · have hrun := (Scanner.ofString line).run_tokens (1 + more)
    have hsize : (Scanner.ofString line).offset + byteLength (Scanner.ofString line).rest = line.utf8ByteSize := by
      rw [← byteLength_toList]
      exact Nat.zero_add _
    rw [hsize, Nat.add_comm 1 more, List.replicate_succ, Nat.add_comm more 1, ← Nat.add_assoc] at hrun
    rw [hlast, List.length_append, List.length_singleton, List.append_assoc]
    exact hrun

end LineCheck
