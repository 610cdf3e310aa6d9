import LineCheck.Proofs.Program.Rules

/-!
# LineCheck.Proofs.Program.Segment — a source cut into the pieces that the first pass sees

The first pass takes a line outside blocks for itself, and the header of a block together with the lines that it passes
over behind it.  `Source.segments` cuts the lines of a source there.  Where the first pass goes through, nothing is lost
and each piece is `Whole`: behind its first line stand just the lines up to the one at which no brace is open any more
(`Collector.segments_of_run`).  Where a piece ends is told by its braces alone, so lines can be cut into whole pieces in
one way only (`Segment.eq_of_flatMap_texts`).

A piece that is cut out of an accepted source spells an item of the program that the source is (`Segment.Spells`), and
whatever spells an item is whole (`Segment.Spells.whole`).
-/

namespace LineCheck

open Traced Text

/-! ### Texts and the statements that they read as -/

/-- A line reads as it does whatever its number is. -/
theorem Line.map_statement_ofText (number number' : Nat) (text : String) :
    (ofText number text).map statement = (ofText number' text).map statement := by
  unfold ofText
  split
  · rfl
  · split
    · rfl
    · dsimp only
      cases (Cursor.ofString text).parseLine.1 <;> rfl

/-- The text reads as this statement, whatever the number of its line is. -/
def TextReads (text : String) (statement : Statement) : Prop :=
  NumberedLine.Reads ⟨0, text⟩ statement

theorem NumberedLine.reads_iff_textReads {l : NumberedLine} {statement : Statement} :
    l.Reads statement ↔ TextReads l.text statement := by
  have hsame := Line.map_statement_ofText l.number 0 l.text
  rw [TextReads, NumberedLine.Reads, NumberedLine.Reads, ← Line.map_statement_eq_ok_iff,
    ← Line.map_statement_eq_ok_iff, hsame]

theorem TextReads.unique {text : String} {a b : Statement} (ha : TextReads text a) (hb : TextReads text b) : a = b :=
  NumberedLine.Reads.unique ha hb

instance (text : String) (statement : Statement) : Decidable (TextReads text statement) :=
  decidable_of_iff _ NumberedLine.reads_iff.symm

namespace LineReader

theorem numberFrom_append (number : Nat) (as bs : List String) :
    numberFrom number (as ++ bs) = numberFrom number as ++ numberFrom (number + as.length) bs := by
  induction as generalizing number with
  | nil => rfl
  | cons a as ih => rw [List.cons_append, numberFrom, numberFrom, ih, List.length_cons, List.cons_append, Nat.add_right_comm,
      Nat.add_assoc]

@[simp] theorem map_text_numberFrom (number : Nat) (texts : List String) :
    (numberFrom number texts).map NumberedLine.text = texts := by
  induction texts generalizing number with
  | nil => rfl
  | cons text more ih => rw [numberFrom, List.map_cons, ih]

end LineReader

open LineReader

theorem forall₂_reads_iff {ls : List NumberedLine} {statements : List Statement} :
    List.Forall₂ NumberedLine.Reads ls statements ↔ List.Forall₂ TextReads (ls.map NumberedLine.text) statements := by
  have hreads : NumberedLine.Reads = fun l statement => TextReads l.text statement := by
    funext l statement
    exact propext NumberedLine.reads_iff_textReads
  rw [List.forall₂_map_left_iff, hreads]

/-! ### Segments -/

/-- Lines that belong together outside functions: a first one, and those that are passed over behind it. -/
structure Segment where
  first : String
  rest : List String
  deriving DecidableEq, Repr

namespace Segment

/-- The lines of the segment. -/
def texts (g : Segment) : List String :=
  g.first :: g.rest

/-- The statement of its first line. -/
def statement? (g : Segment) : Option Statement :=
  NumberedLine.statement? ⟨0, g.first⟩

/-- The header of the function that it is. -/
def header? (g : Segment) : Option Header :=
  match g.statement? with
  | some (.function h) => some h
  | _ => none

/-- The line that it is, if this is one that may stand anywhere. -/
def plain? (g : Segment) : Option PlainLine :=
  match g.statement? with
  | some .blank => some .blank
  | some .comment => some .comment
  | some (.declaration d) => some (.declaration d)
  | some (.assignment as) => some (.assignment as)
  | _ => none

/-- It is a function. -/
def isFunction (g : Segment) : Bool :=
  g.header?.isSome

/-- Where so many braces are open, the lines go just as far as the one that leaves none open. -/
def Closes (opened : Int) : List String → Prop
  | [] => opened ≤ 0
  | text :: more => 0 < opened ∧ Closes (opened + netBraces text) more

/-- It goes as far as the braces that its first line opens. -/
def Whole (g : Segment) : Prop :=
  ∃ statement, TextReads g.first statement ∧ 0 ≤ statement.braces ∧ Closes statement.braces g.rest

theorem statement?_eq_some_iff {g : Segment} {statement : Statement} :
    g.statement? = some statement ↔ TextReads g.first statement :=
  NumberedLine.reads_iff.symm

theorem eq_nil_of_closes {opened : Int} {texts : List String} (hopened : opened ≤ 0) (h : Closes opened texts) :
    texts = [] := by
  cases texts with
  | nil => rfl
  | cons text more => exact absurd h.1 (Int.not_lt.mpr hopened)

theorem closes_append_unique {opened : Int} {as bs cs ds : List String} (ha : Closes opened as) (hb : Closes opened bs)
    (h : as ++ cs = bs ++ ds) : as = bs := by
  induction as generalizing opened bs with
  | nil =>
    cases bs with
    | nil => rfl
    | cons b bs => exact absurd hb.1 (Int.not_lt.mpr ha)
  | cons a as ih =>
    cases bs with
    | nil => exact absurd ha.1 (Int.not_lt.mpr hb)
    | cons b bs =>
      obtain ⟨rfl, htail⟩ := List.cons.inj h
      rw [ih ha.2 hb.2 htail]

/-- Lines are cut into whole segments in one way only. -/
theorem eq_of_flatMap_texts {gs gs' : List Segment} (hwhole : ∀ g ∈ gs, g.Whole) (hwhole' : ∀ g ∈ gs', g.Whole)
    (h : gs.flatMap texts = gs'.flatMap texts) : gs = gs' := by
  induction gs generalizing gs' with
  | nil =>
    cases gs' with
    | nil => rfl
    | cons g' gs' => cases h
  | cons g gs ih =>
    cases gs' with
    | nil => cases h
    | cons g' gs' =>
      obtain ⟨first, rest⟩ := g
      obtain ⟨first', rest'⟩ := g'
      obtain ⟨hfirst, htail⟩ := List.cons.inj h
      dsimp only at hfirst
      subst hfirst
      obtain ⟨statement, hreads, -, hcloses⟩ := hwhole _ List.mem_cons_self
      obtain ⟨statement', hreads', -, hcloses'⟩ := hwhole' _ List.mem_cons_self
      obtain rfl := hreads.unique hreads'
      have hrest : rest = rest' := closes_append_unique hcloses hcloses' htail
      subst hrest
      have hmore := List.append_cancel_left htail
      rw [ih (fun g hg => hwhole g (List.mem_cons_of_mem _ hg)) (fun g hg => hwhole' g (List.mem_cons_of_mem _ hg)) hmore]

end Segment

/-! ### Whole segments by what their first line says -/

namespace Segment

variable {g : Segment}

theorem header?_eq_some_iff {h : Header} : g.header? = some h ↔ TextReads g.first (.function h) := by
  rw [← statement?_eq_some_iff, header?]
  constructor
  · intro hh
    split at hh
    · next heq => cases hh; exact heq
    · cases hh
  · intro hh
    rw [hh]

theorem plain?_eq_some_iff {line : PlainLine} : g.plain? = some line ↔ TextReads g.first line.statement := by
  rw [← statement?_eq_some_iff, plain?]
  constructor
  · intro hline
    split at hline
    case h_1 heq => cases hline; exact heq
    case h_2 heq => cases hline; exact heq
    case h_3 d heq => cases hline; exact heq
    case h_4 as heq => cases hline; exact heq
    case h_5 => cases hline
  · intro hline
    rw [hline]
    cases line <;> rfl

/-- A function is no line that may stand anywhere. -/
theorem plain?_of_header? {h : Header} (hh : g.header? = some h) : g.plain? = none := by
  have hstatement := statement?_eq_some_iff.mpr (header?_eq_some_iff.mp hh)
  rw [plain?, hstatement]

/-- A line that may stand anywhere is no function. -/
theorem header?_of_plain? {line : PlainLine} (hline : g.plain? = some line) : g.header? = none := by
  cases hh : g.header? with
  | none => rfl
  | some h =>
    rw [plain?_of_header? hh] at hline
    cases hline

/-- What is neither of them does nothing in the first pass: a call or a `return`, or a condition and its block. -/
theorem Whole.of_none (hg : g.Whole) (hheader : g.header? = none) (hplain : g.plain? = none) :
    (∃ statement, TextReads g.first statement ∧ (statement = .return ∨ ∃ c, statement = .call c) ∧ g.rest = []) ∨
      ∃ w c, TextReads g.first (.guard w c) ∧ Closes 1 g.rest := by
  have hno : ∀ line : PlainLine, ¬ TextReads g.first line.statement := by
    intro line hreads
    rw [plain?_eq_some_iff.mpr hreads] at hplain
    cases hplain
  obtain ⟨statement, hreads, hopens, hcloses⟩ := hg
  cases statement with
  | blank => exact absurd hreads (hno .blank)
  | comment => exact absurd hreads (hno .comment)
  | declaration d => exact absurd hreads (hno (.declaration d))
  | assignment as => exact absurd hreads (hno (.assignment as))
  | function h =>
    rw [header?_eq_some_iff.mpr hreads] at hheader
    cases hheader
  | call c => exact .inl ⟨_, hreads, .inr ⟨c, rfl⟩, eq_nil_of_closes (Int.le_refl 0) hcloses⟩
  | guard w c => exact .inr ⟨w, c, hreads, hcloses⟩
  | «return» => exact .inl ⟨_, hreads, .inl rfl, eq_nil_of_closes (Int.le_refl 0) hcloses⟩
  | closeBrace => exact absurd hopens (by decide)

theorem Whole.closes_of_header? (hg : g.Whole) {h : Header} (hh : g.header? = some h) : Closes 1 g.rest := by
  obtain ⟨statement, hreads, -, hcloses⟩ := hg
  obtain rfl := hreads.unique (header?_eq_some_iff.mp hh)
  exact hcloses

theorem Whole.rest_of_plain? (hg : g.Whole) {line : PlainLine} (hline : g.plain? = some line) : g.rest = [] := by
  obtain ⟨statement, hreads, -, hcloses⟩ := hg
  obtain rfl := hreads.unique (plain?_eq_some_iff.mp hline)
  exact eq_nil_of_closes (Int.le_of_eq line.braces_statement) hcloses

/-! ### Segments that spell the items of a program -/

/-- The lines of the segment are the statements of the item. -/
def Spells (g : Segment) (item : Item) : Prop :=
  List.Forall₂ TextReads g.texts item.statements

/-- A line that is read changes the number of open braces as its statement says. -/
theorem closes_cons {text : String} {statement : Statement} (hreads : TextReads text statement) {opened : Int}
    (hopened : 0 < opened) {more : List String} :
    Closes opened (text :: more) ↔ Closes (opened + statement.braces) more := by
  rw [Closes, ← hreads.netBraces_eq]
  exact and_iff_right hopened

/-- A line without braces changes nothing. -/
theorem closes_cons_of_braces_eq_zero {text : String} {statement : Statement} (hreads : TextReads text statement)
    (hzero : statement.braces = 0) {opened : Int} (hopened : 0 < opened) {more : List String} :
    Closes opened (text :: more) ↔ Closes opened more := by
  rw [closes_cons hreads hopened, hzero, Int.add_zero]

/-- The braces of a body are balanced, and it never closes more than it has opened. -/
theorem closes_body {body : Body} {texts more : List String}
    (hreads : List.Forall₂ TextReads texts body.statements) {opened : Int} (hopened : 0 < opened) :
    Closes opened (texts ++ more) ↔ Closes opened more := by
  induction body generalizing texts opened more with
  | nil =>
    cases hreads
    exact Iff.rfl
  | plain line rest ih =>
    obtain ⟨text, texts, htext, hrest, rfl⟩ := List.forall₂_cons_right_iff.mp hreads
    exact (closes_cons_of_braces_eq_zero htext line.braces_statement hopened).trans (ih hrest hopened)
  | call c rest ih =>
    obtain ⟨text, texts, htext, hrest, rfl⟩ := List.forall₂_cons_right_iff.mp hreads
    exact (closes_cons_of_braces_eq_zero htext rfl hopened).trans (ih hrest hopened)
  | «return» rest ih =>
    obtain ⟨text, texts, htext, hrest, rfl⟩ := List.forall₂_cons_right_iff.mp hreads
    exact (closes_cons_of_braces_eq_zero htext rfl hopened).trans (ih hrest hopened)
  | guard w c inner rest ihinner ihrest =>
    obtain ⟨text, texts, htext, hblock, rfl⟩ := List.forall₂_cons_right_iff.mp hreads
    obtain ⟨texts₁, texts₂, rfl, hinner, hmore⟩ := exists_append_of_reads hblock
    obtain ⟨text', texts₂, htext', hrest, rfl⟩ := List.forall₂_cons_right_iff.mp hmore
    -- one more brace is open in the block, and its last line closes it again
    have hopened' : 0 < opened + 1 := by omega
    rw [List.cons_append, List.append_assoc, List.cons_append, closes_cons htext hopened, Statement.braces,
      ihinner hinner hopened', closes_cons htext' hopened', Statement.braces, Int.add_neg_cancel_right]
    exact ihrest hrest hopened

/-- A segment that spells an item is whole. -/
theorem Spells.whole {item : Item} (h : g.Spells item) : g.Whole := by
  cases item with
  | plain line =>
    obtain ⟨htext, hrest⟩ := List.forall₂_cons.mp h
    have hnone : g.rest = [] := List.forall₂_nil_right_iff.mp hrest
    refine ⟨line.statement, htext, Int.le_of_eq line.braces_statement.symm, ?_⟩
    rw [hnone, line.braces_statement]
    exact Int.le_refl 0
  | function f =>
    obtain ⟨htext, hrest⟩ := List.forall₂_cons.mp h
    refine ⟨.function f.header, htext, Int.zero_le_ofNat 1, ?_⟩
    obtain ⟨texts, last, hlines, hbody, hlast⟩ := exists_append_of_reads hrest
    obtain ⟨text, more, hclose, hnil, rfl⟩ := List.forall₂_cons_right_iff.mp hlast
    cases hnil
    rw [hlines, Statement.braces, closes_body hbody Int.one_pos, closes_cons hclose Int.one_pos]
    exact Int.le_refl 0

theorem Spells.header? {item : Item} (h : g.Spells item) : g.header? = item.function?.map Function.header := by
  cases item with
  | plain line =>
    have hstatement := statement?_eq_some_iff.mpr (List.forall₂_cons.mp h).1
    rw [Segment.header?, hstatement]
    cases line <;> rfl
  | function f => exact header?_eq_some_iff.mpr (List.forall₂_cons.mp h).1

theorem Spells.plain? {line : PlainLine} (h : g.Spells (.plain line)) : g.plain? = some line :=
  plain?_eq_some_iff.mpr (List.forall₂_cons.mp h).1

/-- Lines that are the statements of a program are cut into segments that spell its items. -/
theorem exists_spells {items : List Item} {lines : List String}
    (h : List.Forall₂ TextReads lines (items.flatMap Item.statements)) :
    ∃ gs, List.Forall₂ Spells gs items ∧ lines = gs.flatMap texts := by
  induction items generalizing lines with
  | nil =>
    cases h
    exact ⟨[], .nil, rfl⟩
  | cons item items ih =>
    obtain ⟨here, more, rfl, hitem, hmore⟩ := exists_append_of_reads h
    obtain ⟨gs, hgs, rfl⟩ := ih hmore
    have hne : here ≠ [] := by
      rintro rfl
      cases item <;> cases hitem
    obtain ⟨first, rest, rfl⟩ := List.exists_cons_of_ne_nil hne
    exact ⟨⟨first, rest⟩ :: gs, .cons hitem hgs, rfl⟩

theorem exists_item_of_spells {gs : List Segment} {items : List Item} (h : List.Forall₂ Spells gs items) :
    ∀ g ∈ gs, ∃ item ∈ items, g.Spells item :=
  fun _ hg => exists_mem_of_forall₂ h hg

theorem reads_of_spells {gs : List Segment} {items : List Item} (h : List.Forall₂ Spells gs items) :
    List.Forall₂ TextReads (gs.flatMap texts) (items.flatMap Item.statements) := by
  induction h with
  | nil => exact .nil
  | cons hitem _ ih => exact List.rel_append hitem ih

end Segment

theorem Program.isReadFrom_iff_textReads {p : Program} {source : Source} :
    p.IsReadFrom source ↔ List.Forall₂ TextReads source.lineTexts p.statements := by
  rw [IsReadFrom, forall₂_reads_iff]
  exact iff_of_eq (congrArg (List.Forall₂ TextReads · p.statements) (map_text_numberFrom 0 source.lineTexts))

/-! ### Cutting as the first pass does -/

/-- What the first pass makes of lines from this state on: the lines that still belong to the block that it is in, and
the segments behind them.  Behind a line that it refuses nothing is cut any more. -/
def Collector.cut (c : Collector) : List NumberedLine → List String × List Segment
  | [] => ([], [])
  | l :: ls =>
    match (c.step l).result with
    | .error _ => ([], [⟨l.text, ls.map NumberedLine.text⟩])
    | .ok c' =>
      let (rest, more) := cut c' ls
      if c.skip.isNone then ([], ⟨l.text, rest⟩ :: more) else (l.text :: rest, more)

/-- The segments of the source, as the first pass sees them. -/
def Source.segments (source : Source) : List Segment :=
  (Collector.cut {} source.lines).2

namespace Collector

variable {c c' : Collector} {l : NumberedLine} {ls : List NumberedLine}

/-- The number of braces that are open. -/
def balance (c : Collector) : Int :=
  c.skip.elim 0 Skip.balance

/-- Where a block is open, braces are. -/
def Open (c : Collector) : Prop :=
  ∀ k, c.skip = some k → 0 < k.balance

/-- Behind a line outside blocks as many braces are open as the line opens. -/
theorem balance_of_step (hflat : c.Flat) (hskip : c.skip = none) (hstep : (c.step l).result = .ok c') :
    ∃ statement, l.Reads statement ∧ 0 ≤ statement.braces ∧ c'.balance = statement.braces ∧ c'.Open := by
  obtain ⟨statement, hreads, ⟨hbraces, hskip'⟩ | ⟨hbraces, hskip'⟩⟩ := hflat.skip_of_step hstep hskip
  · refine ⟨statement, hreads, by omega, ?_, fun k hk => ?_⟩
    · rw [balance, hskip', hbraces]
      rfl
    · rw [hskip'] at hk
      cases hk
  · refine ⟨statement, hreads, by omega, ?_, fun k hk => ?_⟩
    · rw [balance, hskip', hbraces]
      rfl
    · rw [hskip'] at hk
      cases hk
      exact Int.one_pos

/-- A line of a block adds its braces to those that are open, until none is. -/
theorem closes_of_step {k : Skip} (hskip : c.skip = some k) (hstep : (c.step l).result = .ok c') :
    c'.Open ∧ ∀ texts, Segment.Closes c'.balance texts → Segment.Closes (k.balance + netBraces l.text) texts := by
  have hskip' := skip_of_step hstep hskip
  refine ⟨fun k' hk' => ?_, fun texts hcloses => ?_⟩
  · rw [hskip'] at hk'
    split at hk'
    · next hmore => cases hk'; exact hmore
    · cases hk'
  · rw [balance, hskip'] at hcloses
    split at hcloses
    · exact hcloses
    · next hdone =>
      -- no brace is open any more, so no line is left of the block
      rw [Segment.eq_nil_of_closes (Int.le_refl 0) hcloses]
      exact Int.not_lt.mp hdone

/-- Of lines that the first pass goes through nothing is lost; the block that it is in is cut off at its end, and the
segments behind it are whole. -/
theorem cut_of_leads (hflat : c.Flat) (hopen : c.Open) (hlead : Leads step c ls c') (hend : c'.skip = none) :
    (cut c ls).1 ++ (cut c ls).2.flatMap Segment.texts = ls.map NumberedLine.text ∧
      Segment.Closes c.balance (cut c ls).1 ∧ ∀ g ∈ (cut c ls).2, g.Whole := by
  induction ls generalizing c with
  | nil =>
    obtain rfl := leads_nil.mp hlead
    refine ⟨rfl, ?_, fun g hg => absurd hg List.not_mem_nil⟩
    rw [balance, hend]
    exact Int.le_refl 0
  | cons l ls ih =>
    obtain ⟨c₁, hstep, hrest⟩ := leads_cons.mp hlead
    have hflat₁ := (hflat.step hstep).1
    simp only [cut, hstep]
    cases hskip : c.skip with
    | none =>
      obtain ⟨statement, hreads, hbraces, hbalance, hopen₁⟩ := balance_of_step hflat hskip hstep
      obtain ⟨htexts, hcloses, hwhole⟩ := ih hflat₁ hopen₁ hrest
      rw [hbalance] at hcloses
      have hfirst : Segment.Whole ⟨l.text, (cut c₁ ls).1⟩ :=
        ⟨statement, NumberedLine.reads_iff_textReads.mp hreads, hbraces, hcloses⟩
      refine ⟨?_, ?_, List.forall_mem_cons.mpr ⟨hfirst, hwhole⟩⟩
      · rw [List.map_cons, ← htexts]
        rfl
      · rw [balance, hskip]
        exact Int.le_refl 0
    | some k =>
      obtain ⟨hopen₁, hmore⟩ := closes_of_step hskip hstep
      obtain ⟨htexts, hcloses, hwhole⟩ := ih hflat₁ hopen₁ hrest
      refine ⟨?_, ?_, hwhole⟩
      · rw [List.map_cons, ← htexts]
        rfl
      · rw [balance, hskip]
        exact ⟨hopen k hskip, hmore _ hcloses⟩

/-- The segments of a source that the first pass goes through are whole, and they are all its lines. -/
theorem segments_of_run {source : Source} (hc : (run source).result = .ok c) :
    source.lineTexts = source.segments.flatMap Segment.texts ∧ ∀ g ∈ source.segments, g.Whole := by
  obtain ⟨hlead, hskip, -⟩ := result_run_eq_ok_iff.mp hc
  obtain ⟨htexts, hcloses, hwhole⟩ := cut_of_leads flat_start (fun k hk => nomatch hk) hlead hskip
  rw [Segment.eq_nil_of_closes (Int.le_refl 0) hcloses, List.nil_append] at htexts
  exact ⟨(htexts.trans (map_text_numberFrom 0 source.lineTexts)).symm, hwhole⟩

end Collector

end LineCheck
