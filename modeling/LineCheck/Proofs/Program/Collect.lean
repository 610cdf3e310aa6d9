import LineCheck.Proofs.Program.Segment

/-!
# LineCheck.Proofs.Program.Collect — what the first pass asks of a source

A whole segment leaves the first pass as it was, but for what its first line does: the lines that are passed over only
count braces.  So the first pass goes through whole segments if and only if the lines outside blocks are legal in their
order and the functions have different names (`exists_run_iff`).  Nothing is asked of what stands between the braces of
a function, nor of its place.
-/

namespace LineCheck

open Traced Text LineReader

namespace Segment

/-- The headers of the functions among the segments, in order. -/
def headers (gs : List Segment) : List Header :=
  gs.filterMap header?

/-- The lines among the segments that may stand anywhere, in order. -/
def plainItems (gs : List Segment) : List Item :=
  (gs.filterMap plain?).map .plain

theorem headers_cons_of_eq_some {g : Segment} {gs : List Segment} {h : Header} (hh : g.header? = some h) :
    headers (g :: gs) = h :: headers gs :=
  List.filterMap_cons_some hh

theorem headers_cons_of_eq_none {g : Segment} {gs : List Segment} (hh : g.header? = none) :
    headers (g :: gs) = headers gs :=
  List.filterMap_cons_none hh

theorem plainItems_cons_of_eq_some {g : Segment} {gs : List Segment} {line : PlainLine} (hline : g.plain? = some line) :
    plainItems (g :: gs) = .plain line :: plainItems gs := by
  rw [plainItems, List.filterMap_cons_some hline, List.map_cons, plainItems]

theorem plainItems_cons_of_eq_none {g : Segment} {gs : List Segment} (hline : g.plain? = none) :
    plainItems (g :: gs) = plainItems gs := by
  rw [plainItems, List.filterMap_cons_none hline, plainItems]

/-- The headers of segments that spell items are those of the items. -/
theorem headers_of_spells {gs : List Segment} {items : List Item} (h : List.Forall₂ Spells gs items) :
    headers gs = Item.headers items := by
  induction h with
  | nil => rfl
  | @cons g item _ _ hitem _ ih =>
    cases item with
    | plain line => exact (headers_cons_of_eq_none hitem.header?).trans ih
    | function f => exact (headers_cons_of_eq_some hitem.header?).trans (congrArg (f.header :: ·) ih)

/-- The functions among the items have no say in whether the globals are legal. -/
theorem globals_iff_of_spells {gs : List Segment} {items : List Item} (h : List.Forall₂ Spells gs items)
    {env env' : Env} : Globals env (plainItems gs) env' ↔ Globals env items env' := by
  induction h generalizing env with
  | nil => exact Iff.rfl
  | @cons g item _ _ hitem _ ih =>
    cases item with
    | plain line =>
      rw [plainItems_cons_of_eq_some hitem.plain?]
      constructor
      · rintro (_ | ⟨first, more⟩)
        exact .plain first (ih.mp more)
      · rintro (_ | ⟨first, more⟩)
        exact .plain first (ih.mpr more)
    | function f =>
      rw [plainItems_cons_of_eq_none (plain?_of_header? hitem.header?), ih]
      constructor
      · exact .function
      · rintro (_ | _ | more)
        exact more

end Segment

open Segment

namespace Collector

variable {c c' : Collector} {l : NumberedLine} {g : Segment} {gs : List Segment} {number : Nat}

/-! ### Single segments -/

/-- A line that may stand anywhere does to the variables what it does inside functions. -/
theorem result_step_plain_iff {line : PlainLine} (hskip : c.skip = none) (hl : l.Reads line.statement) :
    (c.step l).result = .ok c' ↔
      ∃ scopes, line.statement.Performs c.functions l.number c.scopes scopes ∧
        c' = { c with line := l.number, scopes } := by
  rw [result_step_of_reads hskip hl]
  cases line with
  | blank =>
    refine ⟨fun h => ?_, ?_⟩
    · cases h; exact ⟨c.scopes, .blank, rfl⟩
    · rintro ⟨scopes, ⟨⟩, rfl⟩; rfl
  | comment =>
    refine ⟨fun h => ?_, ?_⟩
    · cases h; exact ⟨c.scopes, .comment, rfl⟩
    · rintro ⟨scopes, ⟨⟩, rfl⟩; rfl
  | declaration d =>
    refine result_withScopes_eq_ok_iff.trans ⟨?_, ?_⟩
    · rintro ⟨scopes, hrun, rfl⟩; exact ⟨scopes, .declaration hrun, rfl⟩
    · rintro ⟨scopes, hperforms, rfl⟩
      cases hperforms with
      | declaration hrun => exact ⟨scopes, hrun, rfl⟩
  | assignment as =>
    refine result_withScopes_eq_ok_iff.trans ⟨?_, ?_⟩
    · rintro ⟨scopes, hrun, rfl⟩; exact ⟨scopes, .assignment hrun, rfl⟩
    · rintro ⟨scopes, hperforms, rfl⟩
      cases hperforms with
      | assignment hrun => exact ⟨scopes, hrun, rfl⟩

/-- The lines of a block do nothing but end it. -/
theorem exists_leads_over {k : Skip} {texts : List String} (hskip : c.skip = some k) (hk : 0 < k.balance)
    (hcloses : Closes k.balance texts) (number : Nat) :
    ∃ last, Leads step c (numberFrom number texts) { c with line := last, skip := none } := by
  induction texts generalizing c k number with
  | nil => exact absurd hk (Int.not_lt.mpr hcloses)
  | cons text more ih =>
    by_cases hmore : 0 < k.balance + netBraces text
    · have hstep := result_step_eq_ok_iff.mpr (.more (l := ⟨number + 1, text⟩) hskip hmore)
      obtain ⟨last, hlead⟩ := ih (c := { c with
        line := number + 1, skip := some { k with balance := k.balance + netBraces text } }) rfl hmore hcloses.2
        (number + 1)
      exact ⟨last, leads_cons.mpr ⟨_, hstep, hlead⟩⟩
    · have hstep := result_step_eq_ok_iff.mpr (.done (l := ⟨number + 1, text⟩) hskip (Int.not_lt.mp hmore))
      obtain rfl := eq_nil_of_closes (Int.not_lt.mp hmore) hcloses.2
      exact ⟨number + 1, leads_singleton.mpr hstep⟩

/-- The first line of a segment is read under its number. -/
theorem reads_first {statement : Statement} (hreads : TextReads g.first statement) (number : Nat) :
    NumberedLine.Reads ⟨number + 1, g.first⟩ statement :=
  NumberedLine.reads_iff_textReads.mpr hreads

/-- A function that is new is registered, and its lines do nothing else. -/
theorem exists_leads_function (hg : g.Whole) {h : Header} (hh : g.header? = some h) (hskip : c.skip = none)
    {functions : Functions} (hdeclare : c.functions.declare ⟨h.name, h.params, number + 1⟩ = .ok functions) :
    ∃ last, Leads step c (numberFrom number g.texts) { c with line := last, functions } := by
  have henter := result_step_eq_ok_iff.mpr (.function hskip (reads_first (header?_eq_some_iff.mp hh) number) hdeclare)
  obtain ⟨last, hlead⟩ := exists_leads_over (c := { c with
    line := number + 1, functions, skip := some ⟨number + 1, 1⟩ }) rfl Int.one_pos (hg.closes_of_header? hh) (number + 1)
  refine ⟨last, leads_cons.mpr ⟨_, henter, ?_⟩⟩
  rw [hskip]
  exact hlead

/-- A segment that is neither a function nor a line that may stand anywhere does nothing. -/
theorem exists_leads_idle (hg : g.Whole) (hheader : g.header? = none) (hplain : g.plain? = none)
    (hskip : c.skip = none) (number : Nat) : ∃ last, Leads step c (numberFrom number g.texts) { c with line := last } := by
  obtain ⟨statement, hreads, hidle, hrest⟩ | ⟨w, condition, hreads, hcloses⟩ := hg.of_none hheader hplain
  · have hstep := result_step_eq_ok_iff.mpr (.idle hskip (reads_first hreads number) (.inr hidle))
    rw [texts, hrest]
    exact ⟨number + 1, leads_singleton.mpr hstep⟩
  · have hstep := result_step_eq_ok_iff.mpr (.guard hskip (reads_first hreads number))
    obtain ⟨last, hlead⟩ := exists_leads_over (c := { c with
      line := number + 1, skip := some ⟨number + 1, 1⟩ }) rfl Int.one_pos hcloses (number + 1)
    refine ⟨last, leads_cons.mpr ⟨_, hstep, ?_⟩⟩
    rw [hskip]
    exact hlead

/-- What a whole segment does to the first pass outside blocks. -/
inductive Takes (c : Collector) (g : Segment) : Collector → Prop where
  | plain {line : PlainLine} {number : Nat} {scopes : Scopes} (here : g.plain? = some line)
      (performs : line.statement.Performs c.functions number c.scopes scopes) :
      Takes c g { c with line := number, scopes }
  | function {h : Header} {first last : Nat} {functions : Functions} (here : g.header? = some h)
      (declared : c.functions.declare ⟨h.name, h.params, first⟩ = .ok functions) :
      Takes c g { c with line := last, functions }
  | idle {last : Nat} (noHeader : g.header? = none) (noPlain : g.plain? = none) : Takes c g { c with line := last }

theorem takes_of_leads (hg : g.Whole) (hskip : c.skip = none) (hlead : Leads step c (numberFrom number g.texts) c') :
    c.Takes g c' := by
  cases hplain : g.plain? with
  | some line =>
    rw [texts, hg.rest_of_plain? hplain] at hlead
    obtain ⟨scopes, hperforms, rfl⟩ :=
      (result_step_plain_iff hskip (reads_first (plain?_eq_some_iff.mp hplain) number)).mp (leads_singleton.mp hlead)
    exact .plain hplain hperforms
  | none =>
    cases hheader : g.header? with
    | none =>
      obtain ⟨last, hlead'⟩ := exists_leads_idle hg hheader hplain hskip number
      rw [hlead.unique hlead']
      exact .idle hheader hplain
    | some h =>
      obtain ⟨c₁, hstep, -⟩ := leads_cons.mp hlead
      rw [result_step_of_reads hskip (reads_first (header?_eq_some_iff.mp hheader) number)] at hstep
      obtain ⟨functions, hdeclare, -⟩ := result_register_eq_ok_iff.mp hstep
      obtain ⟨last, hlead'⟩ := exists_leads_function hg hheader hskip hdeclare
      rw [hlead.unique hlead']
      exact .function hheader hdeclare

/-! ### Whole sources -/

/-- Where the first pass goes through whole segments, the lines outside blocks are legal and the functions have
different and new names. -/
theorem of_leads_segments (hwhole : ∀ g ∈ gs, g.Whole) (hskip : c.skip = none)
    (hlead : Leads step c (numberFrom number (gs.flatMap texts)) c') :
    Globals c.scopes.env (plainItems gs) c'.scopes.env ∧ ((headers gs).map Header.name).Nodup ∧
      (∀ h ∈ headers gs, c.functions.find? h.name = none) ∧
      ∀ h, c'.functions.Knows h ↔ h ∈ headers gs ∨ c.functions.Knows h := by
  induction gs generalizing c number with
  | nil =>
    obtain rfl := leads_nil.mp hlead
    exact ⟨.nil, .nil, fun h hmem => absurd hmem List.not_mem_nil, fun h => by simp [headers]⟩
  | cons g gs ih =>
    obtain ⟨hg, hgs⟩ := List.forall_mem_cons.mp hwhole
    rw [List.flatMap_cons, numberFrom_append] at hlead
    obtain ⟨c₁, hlead₁, hlead₂⟩ := leads_append.mp hlead
    cases takes_of_leads hg hskip hlead₁ with
    | @plain line number scopes here performs =>
      rw [plainItems_cons_of_eq_some here, headers_cons_of_eq_none (header?_of_plain? here)]
      obtain ⟨hglobals, hmore⟩ := ih (c := { c with line := number, scopes }) hgs hskip hlead₂
      exact ⟨.plain (PlainLine.legal_of_performs performs) hglobals, hmore⟩
    | @function h first last functions here declared =>
      rw [plainItems_cons_of_eq_none (plain?_of_header? here), headers_cons_of_eq_some here]
      obtain ⟨hglobals, hnodup, hfresh, hknows⟩ := ih (c := { c with line := last, functions }) hgs hskip hlead₂
      have hother : ∀ h' ∈ headers gs, h.name ≠ h'.name ∧ c.functions.find? h'.name = none := by
        intro h' hmem
        have hnone := hfresh h' hmem
        dsimp only at hnone
        rw [Functions.find?_of_declare declared] at hnone
        split at hnone
        · cases hnone
        · next hne => exact ⟨hne, hnone⟩
      refine ⟨hglobals, ?_, ?_, fun h' => ?_⟩
      · rw [List.map_cons, List.nodup_cons]
        refine ⟨fun hmem => ?_, hnodup⟩
        obtain ⟨h', hmem, hname⟩ := List.mem_map.mp hmem
        exact (hother h' hmem).1 hname.symm
      · exact List.forall_mem_cons.mpr
          ⟨Functions.find?_eq_none_of_declare declared, fun h' hmem => (hother h' hmem).2⟩
      · rw [hknows h', Functions.knows_of_declare declared, List.mem_cons]
        exact or_left_comm.trans or_assoc.symm
    | @idle last noHeader noPlain =>
      rw [plainItems_cons_of_eq_none noPlain, headers_cons_of_eq_none noHeader]
      exact ih (c := { c with line := last }) hgs hskip hlead₂

/-- Where the lines outside blocks are legal and the functions have different and new names, the first pass goes
through. -/
theorem exists_leads_segments {env env' : Env} (hwhole : ∀ g ∈ gs, g.Whole) (hglobals : Globals env (plainItems gs) env')
    (hskip : c.skip = none) (henv : c.scopes.env = env) (hnodup : ((headers gs).map Header.name).Nodup)
    (hfresh : ∀ h ∈ headers gs, c.functions.find? h.name = none) (number : Nat) :
    ∃ c', Leads step c (numberFrom number (gs.flatMap texts)) c' ∧ c'.skip = none ∧ c'.scopes.env = env' := by
  induction gs generalizing c env number with
  | nil =>
    cases hglobals
    exact ⟨c, leads_nil.mpr rfl, hskip, henv⟩
  | cons g gs ih =>
    obtain ⟨hg, hgs⟩ := List.forall_mem_cons.mp hwhole
    rw [List.flatMap_cons, numberFrom_append]
    cases hplain : g.plain? with
    | some line =>
      rw [plainItems_cons_of_eq_some hplain] at hglobals
      rw [headers_cons_of_eq_none (header?_of_plain? hplain)] at hnodup hfresh
      cases hglobals with
      | plain first more =>
        subst henv
        obtain ⟨scopes, hperforms, henv⟩ := PlainLine.exists_performs c.functions (number + 1) first
        have hstep := (result_step_plain_iff hskip (reads_first (plain?_eq_some_iff.mp hplain) number)).mpr
          ⟨scopes, hperforms, rfl⟩
        obtain ⟨c', hlead, hend⟩ := ih (c := { c with line := number + 1, scopes })
          hgs more hskip henv hnodup hfresh (number + g.texts.length)
        refine ⟨c', leads_append.mpr ⟨_, ?_, hlead⟩, hend⟩
        rw [texts, hg.rest_of_plain? hplain]
        exact leads_singleton.mpr hstep
    | none =>
      rw [plainItems_cons_of_eq_none hplain] at hglobals
      cases hheader : g.header? with
      | none =>
        rw [headers_cons_of_eq_none hheader] at hnodup hfresh
        obtain ⟨last, hlead₁⟩ := exists_leads_idle hg hheader hplain hskip number
        obtain ⟨c', hlead₂, hend⟩ := ih (c := { c with line := last })
          hgs hglobals hskip henv hnodup hfresh (number + g.texts.length)
        exact ⟨c', leads_append.mpr ⟨_, hlead₁, hlead₂⟩, hend⟩
      | some h =>
        rw [headers_cons_of_eq_some hheader, List.map_cons, List.nodup_cons] at hnodup
        rw [headers_cons_of_eq_some hheader, List.forall_mem_cons] at hfresh
        obtain ⟨functions, hdeclare⟩ := Functions.exists_declare ⟨h.name, h.params, number + 1⟩ hfresh.1
        obtain ⟨last, hlead₁⟩ := exists_leads_function hg hheader hskip hdeclare
        have hfresh' : ∀ h' ∈ headers gs, functions.find? h'.name = none := by
          intro h' hmem
          rw [Functions.find?_of_declare hdeclare, if_neg]
          · exact hfresh.2 h' hmem
          · exact fun hname => hnodup.1 (List.mem_map.mpr ⟨h', hmem, hname.symm⟩)
        obtain ⟨c', hlead₂, hend⟩ := ih (c := { c with line := last, functions })
          hgs hglobals hskip henv hnodup.2 hfresh' (number + g.texts.length)
        exact ⟨c', leads_append.mpr ⟨_, hlead₁, hlead₂⟩, hend⟩

section Source

variable {source : Source}

/-- What the first pass knows of the segments of a source. -/
theorem of_run_segments (hlines : source.lineTexts = gs.flatMap texts) (hwhole : ∀ g ∈ gs, g.Whole)
    (hc : (run source).result = .ok c) :
    Globals Layers.empty (plainItems gs) c.scopes.env ∧ ((headers gs).map Header.name).Nodup ∧
      c.functions.KnowsJust (headers gs) := by
  obtain ⟨hlead, -, -⟩ := result_run_eq_ok_iff.mp hc
  have hlead : Leads step {} (numberFrom 0 (gs.flatMap texts)) c := hlines ▸ hlead
  obtain ⟨hglobals, hnodup, -, hknows⟩ := of_leads_segments hwhole rfl hlead
  refine ⟨hglobals, hnodup, fun h => ?_⟩
  rw [hknows h, or_iff_left (Functions.not_knows_empty h)]

/-- The first pass goes through whole segments if and only if the lines outside blocks are legal in their order and the
functions have different names. -/
theorem exists_run_iff (hlines : source.lineTexts = gs.flatMap texts) (hwhole : ∀ g ∈ gs, g.Whole) {env : Env} :
    (∃ c, (run source).result = .ok c ∧ c.scopes.env = env) ↔
      Globals Layers.empty (plainItems gs) env ∧ ((headers gs).map Header.name).Nodup := by
  constructor
  · rintro ⟨c, hc, rfl⟩
    obtain ⟨hglobals, hnodup, -⟩ := of_run_segments hlines hwhole hc
    exact ⟨hglobals, hnodup⟩
  · rintro ⟨hglobals, hnodup⟩
    obtain ⟨c, hlead, hskip, henv⟩ :=
      exists_leads_segments (c := {}) hwhole hglobals rfl rfl hnodup (fun h _ => rfl) 0
    have hlead : Leads step {} source.lines c := by
      rw [Source.lines, LineReader.toList, Source.reader, hlines]
      exact hlead
    have hflat := (flat_start.leads hlead).1
    exact ⟨c, result_run_eq_ok_iff.mpr ⟨hlead, hskip, hflat.depth⟩, henv⟩

end Source

end Collector

end LineCheck
