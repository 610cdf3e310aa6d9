import LineCheck.Pass.Verdict
import LineCheck.Proofs.Program.Check
import LineCheck.Proofs.Program.Collect

/-!
# LineCheck.Proofs.Program.Verdict — what is accepted

The two passes together accept a source exactly if its lines spell a legal program (`verdict_eq_ok_iff`).  Between the
passes go the environment that the globals lead to and the headers of the functions, and nothing else of them matters.
-/

namespace LineCheck

open Traced

variable {source : Source}

/-- A source is accepted if both passes go through its lines and end outside blocks. -/
theorem verdict_eq_ok_iff_leads :
    source.verdict = .ok () ↔
      ∃ c s, (Collector.run source).result = .ok c ∧ (Checker.run source c.functions c.scopes).result = .ok s := by
  rw [Source.verdict_eq]
  cases (Collector.run source).result with
  | error stop => simp
  | ok c =>
    dsimp only
    cases hs : (Checker.run source c.functions c.scopes).result with
    | error stop =>
      refine ⟨fun h => (by cases h), ?_⟩
      rintro ⟨c', s, hc, hok⟩
      cases hc
      exact nomatch hs.symm.trans hok
    | ok s => exact ⟨fun _ => ⟨c, s, rfl, hs⟩, fun _ => rfl⟩

/-- A source that is accepted spells a program. -/
theorem exists_isReadFrom (h : source.verdict = .ok ()) : ∃ p : Program, p.IsReadFrom source := by
  obtain ⟨c, s, hc, hs⟩ := verdict_eq_ok_iff_leads.mp h
  obtain ⟨hlead, hblocks, -⟩ := Checker.result_run_eq_ok_iff.mp hs
  have hlock := Checker.lockstep_start (Collector.flat_of_run hc).stack
  obtain ⟨items, hitems⟩ := Checker.exists_items hlock hlead rfl hblocks
  exact ⟨⟨items⟩, hitems⟩

/-- A source that spells a program is cut into segments that spell its items. -/
theorem Program.IsReadFrom.exists_segments {p : Program} (hread : p.IsReadFrom source) :
    ∃ gs, List.Forall₂ Segment.Spells gs p.items ∧ source.lineTexts = gs.flatMap Segment.texts ∧
      ∀ g ∈ gs, g.Whole := by
  obtain ⟨gs, hspells, hlines⟩ := Segment.exists_spells (Program.isReadFrom_iff_textReads.mp hread)
  refine ⟨gs, hspells, hlines, fun g hg => ?_⟩
  obtain ⟨item, -, hitem⟩ := Segment.exists_item_of_spells hspells g hg
  exact hitem.whole

/-- Where the first pass has gone through a program, the globals and the names of its functions are legal, and it knows
the functions. -/
theorem Collector.legal_of_run {p : Program} {c : Collector} (hread : p.IsReadFrom source)
    (hc : (run source).result = .ok c) :
    Globals Layers.empty p.items c.scopes.env ∧ (p.headers.map Header.name).Nodup ∧
      c.functions.KnowsJust p.headers := by
  obtain ⟨gs, hspells, hlines, hwhole⟩ := hread.exists_segments
  rw [Program.headers, ← Segment.headers_of_spells hspells, ← Segment.globals_iff_of_spells hspells]
  exact of_run_segments hlines hwhole hc

/-- Where the first pass has gone through a program, the source is accepted exactly if each function is legal with what
the first pass knows. -/
theorem verdict_eq_ok_iff_functions_legal {p : Program} {c : Collector} (hread : p.IsReadFrom source)
    (hc : (Collector.run source).result = .ok c) :
    source.verdict = .ok () ↔ ∀ f ∈ p.functions, f.Legal p.headers c.scopes.env := by
  obtain ⟨hglobals, hnodup, hknows⟩ := Collector.legal_of_run hread hc
  have hlock := Checker.lockstep_start (Collector.flat_of_run hc).stack
  rw [verdict_eq_ok_iff_leads]
  constructor
  · rintro ⟨c', s, hc', hs⟩
    obtain rfl := Except.ok.inj (hc.symm.trans hc')
    obtain ⟨hlead, -, -⟩ := Checker.result_run_eq_ok_iff.mp hs
    exact Checker.legal_of_leads_items hglobals rfl hknows hread hlock rfl rfl hlead
  · intro hlegal
    obtain ⟨s, hlead, hblocks⟩ := Checker.exists_leads_items hglobals rfl hlegal hknows hread hlock rfl rfl
    have hdepth : s.depth = 0 := by rw [(hlock.leads hlead).depth, hblocks, List.length_nil]
    exact ⟨c, s, hc, Checker.result_run_eq_ok_iff.mpr ⟨hlead, hblocks, hdepth⟩⟩

/-- A source that spells a program is accepted exactly if the program is legal. -/
theorem verdict_eq_ok_iff_legal {p : Program} (hread : p.IsReadFrom source) :
    source.verdict = .ok () ↔ p.Legal := by
  constructor
  · intro h
    obtain ⟨c, -, hc, -⟩ := verdict_eq_ok_iff_leads.mp h
    obtain ⟨hglobals, hnodup, -⟩ := Collector.legal_of_run hread hc
    exact ⟨hnodup, c.scopes.env, hglobals, (verdict_eq_ok_iff_functions_legal hread hc).mp h⟩
  · rintro ⟨hnodup, globals, hglobals, hlegal⟩
    obtain ⟨gs, hspells, hlines, hwhole⟩ := hread.exists_segments
    rw [Program.headers, ← Segment.headers_of_spells hspells] at hnodup
    obtain ⟨c, hc, rfl⟩ := (Collector.exists_run_iff hlines hwhole).mpr
      ⟨(Segment.globals_iff_of_spells hspells).mpr hglobals, hnodup⟩
    exact (verdict_eq_ok_iff_functions_legal hread hc).mpr hlegal

/-- The two passes accept exactly the sources whose lines spell a legal program. -/
theorem verdict_eq_ok_iff : source.verdict = .ok () ↔ ∃ p : Program, p.IsReadFrom source ∧ p.Legal := by
  constructor
  · intro h
    obtain ⟨p, hread⟩ := exists_isReadFrom h
    exact ⟨p, hread, (verdict_eq_ok_iff_legal hread).mp h⟩
  · rintro ⟨p, hread, hlegal⟩
    exact (verdict_eq_ok_iff_legal hread).mpr hlegal

end LineCheck
