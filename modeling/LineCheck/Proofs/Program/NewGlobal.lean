import LineCheck.Proofs.Program.Relaxation

/-!
# LineCheck.Proofs.Program.NewGlobal — one global more

A declaration of new names is put between two segments of a source.  Up to there the names are in no scope
(`Globals.inner_eq_none`), so they can be declared, and from there on the globals are those of before and the new ones
(`Declares.exists_of_new`).  Every use in the program already means an entry that is there without them, and a function
may declare the names again in its own scopes; so a source that is accepted stays accepted (`verdict_of_newGlobal`).
-/

namespace LineCheck

open Layers (Extends)

/-! ### Names that nothing declares -/

section Undeclared

variable {env env' : Env} {name : String}

theorem Layers.inner_modify_eq_none {α : Type} {s : Layers α} {name : String} (h : s.inner name = none) (other : String)
    (f : α → α) : (s.modify other f).inner name = none := by
  cases hs : s.inner other with
  | none => simpa [modify, hs] using h
  | some a =>
    have hne : name ≠ other := by
      rintro rfl
      rw [h] at hs
      cases hs
    simpa [modify, hs, Function.update_of_ne hne] using h

theorem Assigns.inner_eq_none {as : List Assignment} (h : Assigns env as env') (hname : env.inner name = none) :
    env'.inner name = none := by
  induction h with
  | nil => exact hname
  | cons _ _ _ _ ih => exact ih (Layers.inner_modify_eq_none hname _ _)

theorem Declares.inner_eq_none {isFinal : Bool} {ty : Ty} {ds : List Declarator} (h : Declares isFinal ty env ds env')
    (hname : env.inner name = none) (hnew : name ∉ ds.map Declarator.name) : env'.inner name = none := by
  induction h with
  | nil => exact hname
  | @cons env env' d ds _ _ _ ih =>
    rw [List.map_cons, List.mem_cons, not_or] at hnew
    obtain ⟨hne, hmore⟩ := hnew
    exact ih (Layers.inner_add_eq_none_iff.mpr ⟨hne, hname⟩) hmore

theorem PlainLine.Legal.inner_eq_none {line : PlainLine} (h : line.Legal env env') (hname : env.inner name = none)
    (hnew : name ∉ line.declared) : env'.inner name = none := by
  cases h with
  | blank => exact hname
  | comment => exact hname
  | declaration declares => exact declares.inner_eq_none hname hnew
  | assignment assigns => exact assigns.inner_eq_none hname

/-- A name that no line outside functions declares is no global. -/
theorem Globals.inner_eq_none {items : List Item} (h : Globals env items env') (hname : env.inner name = none)
    (hnew : name ∉ items.flatMap Item.declared) : env'.inner name = none := by
  induction h with
  | nil => exact hname
  | plain first _ ih =>
    rw [List.flatMap_cons, List.mem_append, not_or] at hnew
    exact ih (first.inner_eq_none hname hnew.1) hnew.2
  | function _ ih => exact ih hname hnew

end Undeclared

/-! ### A declaration of new names -/

/-- Where the declaration gives a first value, it is a literal that fits. -/
def Declaration.HasFittingLiterals (d : Declaration) : Prop :=
  ∀ v ∈ d.declarators, ∀ value, v.init = some value → ∃ l : Literal, value = .literal l ∧ l.fits d.ty = true

/-- Different names that are new can be declared, and are all that the globals have more than before. -/
theorem Declares.exists_of_new {isFinal : Bool} {ty : Ty} {extra : List String} {env env' : Env} {ds : List Declarator}
    (hinit : ∀ d ∈ ds, ∀ value, d.init = some value → ∃ l : Literal, value = .literal l ∧ l.fits ty = true)
    (hdistinct : (ds.map Declarator.name).Nodup) (hextra : ds.map Declarator.name ⊆ extra)
    (hnew : ∀ name ∈ ds.map Declarator.name, env.inner name = none)
    (hnew' : ∀ name ∈ ds.map Declarator.name, env'.inner name = none)
    (hextends : Extends Standing.Eases extra 0 env env') :
    ∃ env'', Declares isFinal ty env' ds env'' ∧ Extends Standing.Eases extra 0 env env'' := by
  induction ds generalizing env' with
  | nil => exact ⟨env', .nil, hextends⟩
  | cons d ds ih =>
    rw [List.map_cons] at hdistinct hextra hnew hnew'
    obtain ⟨hd, hmore⟩ := List.nodup_cons.mp hdistinct
    obtain ⟨hinitd, hinits⟩ := List.forall_mem_cons.mp hinit
    obtain ⟨hnewd, hnews⟩ := List.forall_mem_cons.mp hnew
    obtain ⟨hnewd', hnews'⟩ := List.forall_mem_cons.mp hnew'
    obtain ⟨hextrad, hextras⟩ := List.cons_subset.mp hextra
    have hfits : ∀ value, d.init = some value → value.Fits ty env' := by
      intro value hvalue
      obtain ⟨l, rfl, hl⟩ := hinitd value hvalue
      exact hl
    have hrest : ∀ name ∈ ds.map Declarator.name,
        (env'.add d.name ⟨ty, isFinal, d.init.isSome⟩).inner name = none := by
      intro name hname
      have hne : name ≠ d.name := fun heq => hd (heq ▸ hname)
      exact Layers.inner_add_eq_none_iff.mpr ⟨hne, hnews' name hname⟩
    obtain ⟨env'', hdeclares, hextends'⟩ :=
      ih hinits hmore hextras hnews hrest (hextends.add_extra hextrad hnewd _)
    exact ⟨env'', .cons hfits hnewd' hdeclares, hextends'⟩

/-! ### One line more -/

theorem globals_append {env env' : Env} {as bs : List Item} :
    Globals env (as ++ bs) env' ↔ ∃ env₁, Globals env as env₁ ∧ Globals env₁ bs env' := by
  induction as generalizing env with
  | nil =>
    constructor
    · exact fun h => ⟨env, .nil, h⟩
    · rintro ⟨_, _ | _, h⟩
      exact h
  | cons item as ih =>
    constructor
    · rintro (_ | ⟨first, more⟩ | more)
      · obtain ⟨env₁, has, hbs⟩ := ih.mp more
        exact ⟨env₁, .plain first has, hbs⟩
      · obtain ⟨env₁, has, hbs⟩ := ih.mp more
        exact ⟨env₁, .function has, hbs⟩
    · rintro ⟨env₁, _ | ⟨first, more⟩ | more, hbs⟩
      · exact .plain first (ih.mpr ⟨env₁, more, hbs⟩)
      · exact .function (ih.mpr ⟨env₁, more, hbs⟩)

/-- A legal program is legal with one declaration more, if this declares different names that nothing else declares
outside functions, and gives them literals that fit. -/
theorem Program.Legal.of_newGlobal {as bs : List Item} (h : Program.Legal ⟨as ++ bs⟩) {d : Declaration}
    (hinit : d.HasFittingLiterals) (hdistinct : (d.declarators.map Declarator.name).Nodup)
    (hnew : ∀ name ∈ d.declarators.map Declarator.name, name ∉ (as ++ bs).flatMap Item.declared) :
    Program.Legal ⟨as ++ .plain (.declaration d) :: bs⟩ := by
  obtain ⟨hnames, globals, hglobals, hfunctions⟩ := h
  have hsame : Program.functions ⟨as ++ .plain (.declaration d) :: bs⟩ = Program.functions ⟨as ++ bs⟩ := by
    rw [Program.functions, Program.functions, List.filterMap_append, List.filterMap_append,
      List.filterMap_cons_none rfl]
  have hheaders : Program.headers ⟨as ++ .plain (.declaration d) :: bs⟩ = Program.headers ⟨as ++ bs⟩ :=
    congrArg (List.map Function.header) hsame
  obtain ⟨env, has, hbs⟩ := globals_append.mp hglobals
  have hfresh : ∀ name ∈ d.declarators.map Declarator.name, env.inner name = none := by
    intro name hname
    refine has.inner_eq_none rfl fun hmem => hnew name hname ?_
    rw [List.flatMap_append]
    exact List.mem_append_left _ hmem
  -- with the new names the globals extend those without them, from here on to the end
  obtain ⟨env', hdeclares, hextends⟩ : ∃ env', Declares d.isFinal d.ty env d.declarators env' ∧
      Extends Standing.Eases (d.declarators.map Declarator.name) 0 env env' :=
    Declares.exists_of_new hinit hdistinct (List.Subset.refl _) hfresh hfresh
      (Layers.extends_self Standing.Eases.refl (has.outer_eq_nil rfl))
  obtain ⟨globals', hbs', hextends'⟩ := hbs.exists_of_relaxes (List.forall₂_same.mpr fun item _ => .refl item) hextends
    fun name hname hmem => hnew name hmem (by
      rw [List.flatMap_append]
      exact List.mem_append_right _ hname)
  refine ⟨?_, globals', globals_append.mpr ⟨env, has, .plain (.declaration hdeclares) hbs'⟩, fun f hf => ?_⟩
  · rw [hheaders]
    exact hnames
  · rw [hheaders]
    exact (hfunctions f (hsame ▸ hf)).of_relaxes (.refl f) (List.forall₂_same.mpr fun h _ => .refl h) hextends'

namespace Segment

/-- The names that the segment declares outside functions. -/
def declared (g : Segment) : List String :=
  g.plain?.elim [] PlainLine.declared

theorem Spells.declared {g : Segment} {item : Item} (h : g.Spells item) : item.declared = g.declared := by
  cases item with
  | plain line => rw [Segment.declared, h.plain?]; rfl
  | function f => rw [Segment.declared, plain?_of_header? h.header?]; rfl

end Segment

open Segment

/-- A new global does not make a source illegal.  A source that is accepted is accepted with one declaration more
between two of its segments, if this declares different names that no line outside functions declares, and gives them
literals that fit their type or no values; functions may have declared these names. -/
theorem verdict_of_newGlobal {source source' : Source} {gs gs' : List Segment} {text : String} {d : Declaration}
    (h : source.verdict = .ok ()) (hsegments : source.segments = gs ++ gs') (hread : TextReads text (.declaration d))
    (hdistinct : (d.declarators.map Declarator.name).Nodup)
    (hnew : ∀ name ∈ d.declarators.map Declarator.name, name ∉ source.segments.flatMap Segment.declared)
    (hinit : d.HasFittingLiterals)
    (hlines : source'.lineTexts = gs.flatMap texts ++ text :: gs'.flatMap texts) : source'.verdict = .ok () := by
  obtain ⟨p, hp⟩ := exists_isReadFrom h
  have hlegal := (verdict_eq_ok_iff_legal hp).mp h
  obtain ⟨c, -, hc, -⟩ := verdict_eq_ok_iff_leads.mp h
  obtain ⟨htexts, hwhole⟩ := Collector.segments_of_run hc
  obtain ⟨segments, hspells, htexts', hwhole'⟩ := hp.exists_segments
  obtain rfl := eq_of_flatMap_texts hwhole hwhole' (htexts.symm.trans htexts')
  have hdeclared : p.items.flatMap Item.declared = source.segments.flatMap Segment.declared := by
    rw [List.flatMap_def, List.flatMap_def, map_eq_of_forall₂ hspells fun _ _ hg => hg.declared]
  rw [← hdeclared] at hnew
  rw [hsegments] at hspells
  obtain ⟨as, bs, hitems, has, hbs⟩ := exists_append_of_forall₂ hspells
  obtain ⟨items⟩ := p
  dsimp only at hitems hnew
  subst hitems
  refine (verdict_eq_ok_iff_legal ?_).mpr (hlegal.of_newGlobal hinit hdistinct hnew)
  rw [Program.isReadFrom_iff_textReads, hlines, Program.statements, List.flatMap_append, List.flatMap_cons]
  exact List.rel_append (reads_of_spells has) (.cons hread (reads_of_spells hbs))

/-- A function with a parameter, a local variable and a variable in a block, and a global. -/
def shadowing : Source :=
  ⟨"shadowing",
    "int a;\nvoid f(int b) \x7b\n  int c = b;\n  if (c) \x7b\n    char b = 'b';\n  \x7d\n  return;\n\x7d\na = 1;\n"⟩

/-- The same with globals of the same names between the function and the last line. -/
def shadowed : Source :=
  ⟨"shadowed", "int a;\nvoid f(int b) \x7b\n  int c = b;\n  if (c) \x7b\n    char b = 'b';\n  \x7d\n  return;\n\x7d\n" ++
    "String b, c = \"c\";\na = 1;\n"⟩

theorem segments_shadowing : shadowing.segments =
    [⟨"int a;", []⟩, ⟨"void f(int b) \x7b",
      ["  int c = b;", "  if (c) \x7b", "    char b = 'b';", "  \x7d", "  return;", "\x7d"]⟩, ⟨"a = 1;", []⟩] := by
  decide +kernel

theorem verdict_of_newGlobal_shadowed : shadowing.verdict = .ok () ∧ shadowed.verdict = .ok () := by
  have haccepted : shadowing.verdict = .ok () := by decide +kernel
  have hread : TextReads "String b, c = \"c\";"
      (.declaration ⟨false, .string, [⟨"b", none⟩, ⟨"c", some (.literal (.string "\"c\""))⟩]⟩) := by
    decide +kernel
  have hinit : Declaration.HasFittingLiterals
      ⟨false, .string, [⟨"b", none⟩, ⟨"c", some (.literal (.string "\"c\""))⟩]⟩ := by
    simp [Declaration.HasFittingLiterals, Literal.fits]
  have hsegments := (List.take_append_drop 2 shadowing.segments).symm
  refine ⟨haccepted, verdict_of_newGlobal haccepted hsegments hread (by decide) ?_ hinit ?_⟩
  · rw [segments_shadowing]
    decide +kernel
  · rw [segments_shadowing]
    decide +kernel

end LineCheck
