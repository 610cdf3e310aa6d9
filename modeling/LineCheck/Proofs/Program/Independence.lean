import LineCheck.Proofs.Program.Verdict

/-!
# LineCheck.Proofs.Program.Independence — each function is judged for itself

Where the first pass goes through, a source is accepted if and only if each of its segments is legal with the globals
that the source ends with and the headers of all its functions (`verdict_eq_ok_iff_segments`).  No segment is asked
where it stands or what is in another one.  So functions may be moved (`functions_move`), and the bodies of a source may
be judged one at a time, with a bare `return` in the place of the others (`bodies_independent`).
-/

namespace LineCheck

open Traced

namespace Segment

variable {g : Segment} {gs : List Segment} {hs hs' : List Header} {globals : Env}

/-- The segment spells a line that may stand anywhere, or a function that is legal where these headers are known and
the globals are these. -/
def Legal (headers : List Header) (globals : Env) (g : Segment) : Prop :=
  ∃ item, g.Spells item ∧ ∀ f, item.function? = some f → f.Legal headers globals

theorem Legal.of_subset (h : g.Legal hs globals) (hsubset : hs ⊆ hs') : g.Legal hs' globals := by
  obtain ⟨item, hspells, hlegal⟩ := h
  exact ⟨item, hspells, fun f hf => (hlegal f hf).of_subset hsubset⟩

/-- Segments that are legal spell a program. -/
theorem exists_items_of_legal (h : ∀ g ∈ gs, g.Legal hs globals) :
    ∃ items : List Item, List.Forall₂ Spells gs items ∧
      ∀ f ∈ items.filterMap Item.function?, f.Legal hs globals := by
  induction gs with
  | nil => exact ⟨[], .nil, nofun⟩
  | cons g gs ih =>
    obtain ⟨⟨item, hspells, hlegal⟩, hmore⟩ := List.forall_mem_cons.mp h
    obtain ⟨items, hitems, hfunctions⟩ := ih hmore
    refine ⟨item :: items, .cons hspells hitems, fun f hf => ?_⟩
    obtain ⟨item', hmem, hf'⟩ := List.mem_filterMap.mp hf
    rcases List.mem_cons.mp hmem with rfl | hmem
    · exact hlegal f hf'
    · exact hfunctions f (List.mem_filterMap.mpr ⟨item', hmem, hf'⟩)

end Segment

open Segment

section Source

variable {source source' : Source} {c : Collector} {gs gs' : List Segment}

/-- Where the first pass goes through, a source is accepted if and only if each of its segments is legal. -/
theorem verdict_eq_ok_iff_segments (hlines : source.lineTexts = gs.flatMap texts) (hwhole : ∀ g ∈ gs, g.Whole)
    (hc : (Collector.run source).result = .ok c) :
    source.verdict = .ok () ↔ ∀ g ∈ gs, g.Legal (headers gs) c.scopes.env := by
  constructor
  · intro h
    obtain ⟨p, hread⟩ := exists_isReadFrom h
    obtain ⟨gs', hspells, hlines', hwhole'⟩ := hread.exists_segments
    obtain rfl := eq_of_flatMap_texts hwhole hwhole' (hlines.symm.trans hlines')
    have hlegal := (verdict_eq_ok_iff_functions_legal hread hc).mp h
    intro g hg
    obtain ⟨item, hmem, hitem⟩ := exists_item_of_spells hspells g hg
    refine ⟨item, hitem, fun f hf => ?_⟩
    rw [headers_of_spells hspells]
    exact hlegal f (List.mem_filterMap.mpr ⟨item, hmem, hf⟩)
  · intro h
    obtain ⟨items, hspells, hlegal⟩ := exists_items_of_legal h
    have hread : Program.IsReadFrom ⟨items⟩ source := by
      rw [Program.isReadFrom_iff_textReads, hlines]
      exact reads_of_spells hspells
    rw [headers_of_spells hspells] at hlegal
    exact (verdict_eq_ok_iff_functions_legal hread hc).mpr hlegal

/-- Where the first pass goes through one source, it goes through any other with the same lines outside blocks and the
same headers, in whatever order these are; and the segments of both are judged alike. -/
theorem exists_run_and_verdict_iff (hc : (Collector.run source).result = .ok c)
    (hlines : source'.lineTexts = gs.flatMap texts) (hwhole : ∀ g ∈ gs, g.Whole)
    (hplain : plainItems gs = plainItems source.segments) (hheaders : (headers gs).Perm (headers source.segments)) :
    (∃ c', (Collector.run source').result = .ok c') ∧
      (source'.verdict = .ok () ↔ ∀ g ∈ gs, g.Legal (headers source.segments) c.scopes.env) := by
  obtain ⟨hlines₀, hwhole₀⟩ := Collector.segments_of_run hc
  obtain ⟨hglobals, hnodup, -⟩ := Collector.of_run_segments hlines₀ hwhole₀ hc
  obtain ⟨c', hc', henv⟩ := (Collector.exists_run_iff hlines hwhole).mpr
    ⟨hplain ▸ hglobals, (hheaders.map Header.name).nodup_iff.mpr hnodup⟩
  refine ⟨⟨c', hc'⟩, ?_⟩
  rw [verdict_eq_ok_iff_segments hlines hwhole hc', henv]
  constructor
  · exact fun h g hg => (h g hg).of_subset hheaders.subset
  · exact fun h g hg => (h g hg).of_subset hheaders.symm.subset

/-! ### Moving functions -/

/-- The same segments in another order, in which those that are no functions have kept theirs. -/
structure Rearranged (gs gs' : List Segment) : Prop where
  perm : gs'.Perm gs
  others : gs'.filter (fun g => !g.isFunction) = gs.filter fun g => !g.isFunction

/-- Functions are no lines that may stand anywhere. -/
theorem plainItems_filter (gs : List Segment) : plainItems (gs.filter fun g => !g.isFunction) = plainItems gs := by
  rw [plainItems, plainItems, List.filterMap_filter]
  refine congrArg (List.map Item.plain) (List.filterMap_congr fun g _ => ?_)
  cases hheader : g.header? with
  | none =>
    rw [isFunction, hheader]
    rfl
  | some h =>
    rw [plain?_of_header? hheader]
    exact ite_self none

/-- The place of a function does not matter.  Where the first pass goes through a source, it goes through what becomes
of it when whole functions are moved to other places among its segments, and either both sources are accepted or
neither is. -/
theorem functions_move (hc : (Collector.run source).result = .ok c) (hmoved : Rearranged source.segments gs)
    (hlines : source'.lineTexts = gs.flatMap texts) :
    (∃ c', (Collector.run source').result = .ok c') ∧ (source'.verdict = .ok () ↔ source.verdict = .ok ()) := by
  obtain ⟨hlines₀, hwhole₀⟩ := Collector.segments_of_run hc
  have hwhole : ∀ g ∈ gs, g.Whole := fun g hg => hwhole₀ g (hmoved.perm.subset hg)
  have hplain : plainItems gs = plainItems source.segments := by
    rw [← plainItems_filter gs, hmoved.others, plainItems_filter]
  obtain ⟨hrun, hverdict⟩ := exists_run_and_verdict_iff hc hlines hwhole hplain (hmoved.perm.filterMap header?)
  refine ⟨hrun, ?_⟩
  rw [hverdict, verdict_eq_ok_iff_segments hlines₀ hwhole₀ hc]
  exact ⟨fun h g hg => h g (hmoved.perm.symm.subset hg), fun h g hg => h g (hmoved.perm.subset hg)⟩

/-- A function that calls one further down, with a global that gets its value further down too. -/
def forwardCall : Source :=
  ⟨"forward", "int a;\nvoid f() \x7b\n  g(a);\n  return;\n\x7d\na = 1;\nvoid g(int x) \x7b\n  return;\n\x7d\n"⟩

/-- The same lines with both functions moved, the second one to the top. -/
def backwardCall : Source :=
  ⟨"backward", "void g(int x) \x7b\n  return;\n\x7d\nint a;\na = 1;\nvoid f() \x7b\n  g(a);\n  return;\n\x7d\n"⟩

theorem segments_forwardCall : forwardCall.segments =
    [⟨"int a;", []⟩, ⟨"void f() \x7b", ["  g(a);", "  return;", "\x7d"]⟩, ⟨"a = 1;", []⟩,
      ⟨"void g(int x) \x7b", ["  return;", "\x7d"]⟩] := by
  decide +kernel

theorem functions_move_forward_call :
    ∃ gs, Rearranged forwardCall.segments gs ∧ backwardCall.lineTexts = gs.flatMap texts ∧
      forwardCall.verdict = .ok () ∧ backwardCall.verdict = .ok () := by
  have hrun : (Collector.run forwardCall).result.toOption.isSome = true := by decide +kernel
  have hmoved : Rearranged forwardCall.segments [⟨"void g(int x) \x7b", ["  return;", "\x7d"]⟩, ⟨"int a;", []⟩,
      ⟨"a = 1;", []⟩, ⟨"void f() \x7b", ["  g(a);", "  return;", "\x7d"]⟩] := by
    rw [segments_forwardCall]
    exact ⟨by decide +kernel, by decide +kernel⟩
  have haccepted : forwardCall.verdict = .ok () := by decide +kernel
  cases hc : (Collector.run forwardCall).result with
  | error stop => rw [hc] at hrun; cases hrun
  | ok c => exact ⟨_, hmoved, by decide +kernel, haccepted, (functions_move hc hmoved (by decide +kernel)).2.mpr haccepted⟩

end Source

/-! ### One body at a time -/

theorem reads_return : TextReads "return;" .return :=
  NumberedLine.reads_iff.mpr (by decide +kernel)

theorem reads_closeBrace : TextReads "\x7d" .closeBrace :=
  NumberedLine.reads_iff.mpr (by decide +kernel)

namespace Segment

variable {g : Segment} {hs : List Header} {globals : Env}

/-- A function with nothing behind its header but a `return` and the closing brace. -/
def stub (g : Segment) : Segment :=
  if g.isFunction then { g with rest := ["return;", "\x7d"] } else g

/-- A function with another name, with nothing behind its header but a `return` and the closing brace. -/
def stubUnless (name : String) (g : Segment) : Segment :=
  if g.header?.map Header.name = some name then g else g.stub

theorem stub_of_header? {h : Header} (hh : g.header? = some h) :
    g.stub = { g with rest := ["return;", "\x7d"] } := by
  rw [stub, isFunction, hh]
  rfl

theorem stub_of_no_header (hh : g.header? = none) : g.stub = g := by
  rw [stub, isFunction, hh]
  rfl

/-- The lines of a stub are those of a function that only returns. -/
theorem spells_stub {h : Header} (hh : g.header? = some h) :
    g.stub.Spells (.function ⟨h, .return .nil⟩) := by
  rw [stub_of_header? hh]
  exact .cons (header?_eq_some_iff.mp hh) (.cons reads_return (.cons reads_closeBrace .nil))

/-- A stub differs from the function behind the header only. -/
theorem stub_same (hg : g.Whole) : g.stub.Whole ∧ g.stub.header? = g.header? ∧ g.stub.plain? = g.plain? := by
  cases hh : g.header? with
  | none => rw [stub_of_no_header hh]; exact ⟨hg, hh, rfl⟩
  | some h =>
    have hspells := spells_stub hh
    exact ⟨hspells.whole, hspells.header?, (plain?_of_header? hspells.header?).trans (plain?_of_header? hh).symm⟩

theorem stubUnless_same (name : String) (hg : g.Whole) :
    (g.stubUnless name).Whole ∧ (g.stubUnless name).header? = g.header? ∧ (g.stubUnless name).plain? = g.plain? := by
  unfold stubUnless
  split
  · exact ⟨hg, rfl, rfl⟩
  · exact stub_same hg

/-- Of a stub only the parameters can be illegal. -/
theorem Legal.stub (h : g.Legal hs globals) : g.stub.Legal hs globals := by
  cases hh : g.header? with
  | none => rwa [stub_of_no_header hh]
  | some hd =>
    obtain ⟨item, hspells, hlegal⟩ := h
    have hfunction := hspells.header?.symm.trans hh
    obtain ⟨f, hf, rfl⟩ := Option.map_eq_some_iff.mp hfunction
    refine ⟨_, spells_stub hh, fun f' hf' => ?_⟩
    cases hf'
    exact ⟨(hlegal f hf).params, rfl, _, .return .nil⟩

theorem Legal.stubUnless (name : String) (h : g.Legal hs globals) : (g.stubUnless name).Legal hs globals := by
  unfold Segment.stubUnless
  split
  · exact h
  · exact h.stub

end Segment

section Source

variable {source source' : Source} {c : Collector}

/-- Where every segment is changed behind its first line only, the first pass goes through as before, and each of the
new segments is judged as if the others were as before. -/
theorem verdict_eq_ok_iff_of_map (hc : (Collector.run source).result = .ok c) {change : Segment → Segment}
    (hsame : ∀ g : Segment, g.Whole →
      (change g).Whole ∧ (change g).header? = g.header? ∧ (change g).plain? = g.plain?)
    (hlines : source'.lineTexts = (source.segments.map change).flatMap texts) :
    source'.verdict = .ok () ↔
      ∀ g ∈ source.segments, (change g).Legal (headers source.segments) c.scopes.env := by
  obtain ⟨-, hwhole₀⟩ := Collector.segments_of_run hc
  have hheader : ∀ g ∈ source.segments, (header? ∘ change) g = header? g := fun g hg => (hsame g (hwhole₀ g hg)).2.1
  have hplain : ∀ g ∈ source.segments, (plain? ∘ change) g = plain? g := fun g hg => (hsame g (hwhole₀ g hg)).2.2
  have hheaders : headers (source.segments.map change) = headers source.segments := by
    rw [headers, List.filterMap_map, List.filterMap_congr hheader, headers]
  have hplains : plainItems (source.segments.map change) = plainItems source.segments := by
    rw [plainItems, List.filterMap_map, List.filterMap_congr hplain, plainItems]
  have hwhole : ∀ g ∈ source.segments.map change, g.Whole := by
    rw [List.forall_mem_map]
    exact fun g hg => (hsame g (hwhole₀ g hg)).1
  rw [(exists_run_and_verdict_iff hc hlines hwhole hplains (.of_eq hheaders)).2, List.forall_mem_map]

/-- The bodies of functions are judged independently of each other.  Where the first pass goes through a source, the
source is accepted if and only if it is accepted with a bare `return` in the place of every body, and, for each of its
functions, with a bare `return` in the place of every other body. -/
theorem bodies_independent (hc : (Collector.run source).result = .ok c) {stubbed : Source} {alone : String → Source}
    (hstubbed : stubbed.lineTexts = (source.segments.map stub).flatMap texts)
    (halone : ∀ h ∈ headers source.segments,
      (alone h.name).lineTexts = (source.segments.map (stubUnless h.name)).flatMap texts) :
    source.verdict = .ok () ↔
      stubbed.verdict = .ok () ∧ ∀ h ∈ headers source.segments, (alone h.name).verdict = .ok () := by
  obtain ⟨hlines₀, hwhole₀⟩ := Collector.segments_of_run hc
  rw [verdict_eq_ok_iff_segments hlines₀ hwhole₀ hc, verdict_eq_ok_iff_of_map hc (fun g => stub_same) hstubbed]
  have hone : ∀ h ∈ headers source.segments, (alone h.name).verdict = .ok () ↔
      ∀ g ∈ source.segments, (g.stubUnless h.name).Legal (headers source.segments) c.scopes.env := fun h hh =>
    verdict_eq_ok_iff_of_map hc (fun g => stubUnless_same h.name) (halone h hh)
  constructor
  · intro h
    exact ⟨fun g hg => (h g hg).stub, fun hd hh => (hone hd hh).mpr fun g hg => (h g hg).stubUnless hd.name⟩
  · rintro ⟨hstubs, hbodies⟩ g hg
    cases hh : g.header? with
    | none =>
      have hlegal := hstubs g hg
      rwa [stub_of_no_header hh] at hlegal
    | some hd =>
      have hmem : hd ∈ headers source.segments := List.mem_filterMap.mpr ⟨g, hg, hh⟩
      have hlegal := (hone hd hmem).mp (hbodies hd hmem) g hg
      have hkept : g.stubUnless hd.name = g := by
        rw [stubUnless, hh]
        exact if_pos rfl
      rwa [hkept] at hlegal

/-- Two functions, of which the second one has a line that is no statement. -/
def oneBadBody : Source :=
  ⟨"bodies", "void f() \x7b\n  return;\n\x7d\nvoid g() \x7b\n  int 1;\n  return;\n\x7d\n"⟩

/-- The same with bare bodies. -/
def bareBodies : Source :=
  ⟨"bare", "void f() \x7b\nreturn;\n\x7d\nvoid g() \x7b\nreturn;\n\x7d\n"⟩

/-- The same with the body of one function only. -/
def bodyOf (name : String) : Source :=
  if name = "f" then ⟨"first", "void f() \x7b\n  return;\n\x7d\nvoid g() \x7b\nreturn;\n\x7d\n"⟩
  else ⟨"second", "void f() \x7b\nreturn;\n\x7d\nvoid g() \x7b\n  int 1;\n  return;\n\x7d\n"⟩

theorem segments_oneBadBody : oneBadBody.segments =
    [⟨"void f() \x7b", ["  return;", "\x7d"]⟩, ⟨"void g() \x7b", ["  int 1;", "  return;", "\x7d"]⟩] := by
  decide +kernel

theorem headers_oneBadBody : headers oneBadBody.segments = [⟨"f", []⟩, ⟨"g", []⟩] := by
  rw [segments_oneBadBody]
  decide +kernel

/-- What holds of both names holds of both functions. -/
theorem forall_headers_oneBadBody {p : String → Prop} (hf : p "f") (hg : p "g") :
    ∀ h ∈ headers oneBadBody.segments, p h.name := by
  rw [headers_oneBadBody]
  exact List.forall_mem_cons.mpr ⟨hf, List.forall_mem_singleton.mpr hg⟩

theorem bodies_independent_one_bad :
    bareBodies.lineTexts = (oneBadBody.segments.map stub).flatMap texts ∧
      (∀ h ∈ headers oneBadBody.segments,
        (bodyOf h.name).lineTexts = (oneBadBody.segments.map (stubUnless h.name)).flatMap texts) ∧
      bareBodies.verdict = .ok () ∧ (bodyOf "f").verdict = .ok () ∧ (bodyOf "g").verdict ≠ .ok () := by
  have hrun : (Collector.run oneBadBody).result.toOption.isSome = true := by decide +kernel
  have hbare : bareBodies.lineTexts = (oneBadBody.segments.map stub).flatMap texts := by
    rw [segments_oneBadBody]
    decide +kernel
  have halone := forall_headers_oneBadBody
    (p := fun name => (bodyOf name).lineTexts = (oneBadBody.segments.map (stubUnless name)).flatMap texts)
    (by rw [segments_oneBadBody]; decide +kernel) (by rw [segments_oneBadBody]; decide +kernel)
  have hfirst : bareBodies.verdict = .ok () ∧ (bodyOf "f").verdict = .ok () := by decide +kernel
  have hrefused : ¬ oneBadBody.verdict = .ok () := by decide +kernel
  cases hc : (Collector.run oneBadBody).result with
  | error stop => rw [hc] at hrun; cases hrun
  | ok c =>
    refine ⟨hbare, halone, hfirst.1, hfirst.2, fun hsecond => hrefused ?_⟩
    have hall := forall_headers_oneBadBody (p := fun name => (bodyOf name).verdict = .ok ()) hfirst.2 hsecond
    exact (bodies_independent hc hbare halone).mpr ⟨hfirst.1, hall⟩

end Source

end LineCheck
