import LineCheck.Proofs.Program.Verdict
import LineCheck.Proofs.Symbol.Ease

/-!
# LineCheck.Proofs.Program.Relaxation — fewer `final`s and more first values

A `final` only forbids, and so does a missing first value.  A statement is relaxed by dropping `final` from a declaration
or from parameters and by giving variables without a first value a literal that fits their type (`Statement.Relaxes`).
The trees of programs are relaxed line by line, and what is legal stays legal in the environments that this leads to,
which allow more (`Body.Legal.exists_of_relaxes`, `Globals.exists_of_relaxes`).  So a source that is accepted stays
accepted when any of its lines are relaxed (`verdict_of_relaxes`).
-/

namespace LineCheck

open Layers (Extends)

/-! ### Relaxed statements -/

/-- The same variable, perhaps with a literal as its first value where it has none. -/
structure Declarator.Relaxes (ty : Ty) (d d' : Declarator) : Prop where
  name : d'.name = d.name
  init : d'.init = d.init ∨ d.init = none ∧ ∃ l : Literal, d'.init = some (.literal l) ∧ l.fits ty = true

/-- The same declaration, perhaps without `final` and with more first values. -/
structure Declaration.Relaxes (d d' : Declaration) : Prop where
  ty : d'.ty = d.ty
  isFinal : d'.isFinal = true → d.isFinal = true
  declarators : List.Forall₂ (Declarator.Relaxes d.ty) d.declarators d'.declarators

/-- The same parameter, perhaps without `final`. -/
structure Param.Relaxes (p p' : Param) : Prop where
  name : p'.name = p.name
  ty : p'.ty = p.ty
  isFinal : p'.isFinal = true → p.isFinal = true

/-- The same header, perhaps without `final` at some parameters. -/
structure Header.Relaxes (h h' : Header) : Prop where
  name : h'.name = h.name
  params : List.Forall₂ Param.Relaxes h.params h'.params

/-- The same statement, or one that differs in `final` and in first values only, and does not demand more. -/
inductive Statement.Relaxes : Statement → Statement → Prop where
  | same (statement : Statement) : Relaxes statement statement
  | declaration {d d' : Declaration} (relaxed : d.Relaxes d') : Relaxes (.declaration d) (.declaration d')
  | function {h h' : Header} (relaxed : h.Relaxes h') : Relaxes (.function h) (.function h')

/-! ### Relaxed programs -/

/-- The same line, or a declaration that is relaxed. -/
inductive PlainLine.Relaxes : PlainLine → PlainLine → Prop where
  | blank : Relaxes .blank .blank
  | comment : Relaxes .comment .comment
  | declaration {d d' : Declaration} (relaxed : d.Relaxes d') : Relaxes (.declaration d) (.declaration d')
  | assignment {as : List Assignment} : Relaxes (.assignment as) (.assignment as)

/-- The same body with some of its declarations relaxed. -/
inductive Body.Relaxes : Body → Body → Prop where
  | nil : Relaxes .nil .nil
  | plain {line line' : PlainLine} {rest rest' : Body} (first : line.Relaxes line') (more : Relaxes rest rest') :
      Relaxes (.plain line rest) (.plain line' rest')
  | call {c : Call} {rest rest' : Body} (more : Relaxes rest rest') : Relaxes (.call c rest) (.call c rest')
  | return {rest rest' : Body} (more : Relaxes rest rest') : Relaxes (.return rest) (.return rest')
  | guard {w : GuardWord} {c : Condition} {inner inner' rest rest' : Body} (block : Relaxes inner inner')
      (more : Relaxes rest rest') : Relaxes (.guard w c inner rest) (.guard w c inner' rest')

structure Function.Relaxes (f f' : Function) : Prop where
  header : f.header.Relaxes f'.header
  body : f.body.Relaxes f'.body

inductive Item.Relaxes : Item → Item → Prop where
  | plain {line line' : PlainLine} (relaxed : line.Relaxes line') : Relaxes (.plain line) (.plain line')
  | function {f f' : Function} (relaxed : f.Relaxes f') : Relaxes (.function f) (.function f')

theorem Declaration.Relaxes.refl (d : Declaration) : d.Relaxes d :=
  ⟨rfl, id, List.forall₂_same.mpr fun _ _ => ⟨rfl, .inl rfl⟩⟩

theorem PlainLine.Relaxes.refl (line : PlainLine) : line.Relaxes line := by
  cases line with
  | blank => exact .blank
  | comment => exact .comment
  | declaration d => exact .declaration (.refl d)
  | assignment _ => exact .assignment

theorem Param.Relaxes.refl (p : Param) : p.Relaxes p :=
  ⟨rfl, rfl, id⟩

theorem Header.Relaxes.refl (h : Header) : h.Relaxes h :=
  ⟨rfl, List.forall₂_same.mpr fun p _ => .refl p⟩

theorem Body.Relaxes.refl (body : Body) : body.Relaxes body := by
  induction body with
  | nil => exact .nil
  | plain line _ ih => exact .plain (.refl line) ih
  | call _ _ ih => exact .call ih
  | «return» _ ih => exact .return ih
  | guard _ _ _ _ ihinner ihrest => exact .guard ihinner ihrest

theorem Function.Relaxes.refl (f : Function) : f.Relaxes f :=
  ⟨.refl f.header, .refl f.body⟩

theorem Item.Relaxes.refl (item : Item) : item.Relaxes item := by
  cases item with
  | plain line => exact .plain (.refl line)
  | function f => exact .function (.refl f)

/-! ### Programs are relaxed line by line -/

theorem PlainLine.exists_relaxes {line : PlainLine} {statement' : Statement}
    (h : line.statement.Relaxes statement') : ∃ line' : PlainLine, line'.statement = statement' ∧ line.Relaxes line' := by
  cases line with
  | blank => cases h; exact ⟨.blank, rfl, .blank⟩
  | comment => cases h; exact ⟨.comment, rfl, .comment⟩
  | assignment as => cases h; exact ⟨.assignment as, rfl, .assignment⟩
  | declaration d =>
    cases h with
    | same => exact ⟨.declaration d, rfl, .declaration (.refl d)⟩
    | @declaration _ d' relaxed => exact ⟨.declaration d', rfl, .declaration relaxed⟩

/-- What the lines of a body become when they are relaxed are the lines of a relaxed body. -/
theorem Body.exists_relaxes {body : Body} {statements' : List Statement}
    (h : List.Forall₂ Statement.Relaxes body.statements statements') :
    ∃ body' : Body, body'.statements = statements' ∧ body.Relaxes body' := by
  induction body generalizing statements' with
  | nil => cases h; exact ⟨.nil, rfl, .nil⟩
  | plain line rest ih =>
    obtain ⟨statement', more', hline, hrest, rfl⟩ := List.forall₂_cons_left_iff.mp h
    obtain ⟨line', rfl, hline'⟩ := PlainLine.exists_relaxes hline
    obtain ⟨rest', rfl, hrest'⟩ := ih hrest
    exact ⟨.plain line' rest', rfl, .plain hline' hrest'⟩
  | call c rest ih =>
    obtain ⟨statement', more', hcall, hrest, rfl⟩ := List.forall₂_cons_left_iff.mp h
    obtain ⟨rest', rfl, hrest'⟩ := ih hrest
    cases hcall
    exact ⟨.call c rest', rfl, .call hrest'⟩
  | «return» rest ih =>
    obtain ⟨statement', more', hreturn, hrest, rfl⟩ := List.forall₂_cons_left_iff.mp h
    obtain ⟨rest', rfl, hrest'⟩ := ih hrest
    cases hreturn
    exact ⟨.return rest', rfl, .return hrest'⟩
  | guard w c inner rest ihinner ihrest =>
    obtain ⟨statement', more', hguard, hblock, rfl⟩ := List.forall₂_cons_left_iff.mp h
    obtain ⟨block', more', rfl, hinner, hmore⟩ := exists_append_of_forall₂ hblock
    obtain ⟨close', last', hclose, hrest, rfl⟩ := List.forall₂_cons_left_iff.mp hmore
    obtain ⟨inner', rfl, hinner'⟩ := ihinner hinner
    obtain ⟨rest', rfl, hrest'⟩ := ihrest hrest
    cases hguard
    cases hclose
    exact ⟨.guard w c inner' rest', rfl, .guard hinner' hrest'⟩

theorem Item.exists_relaxes {item : Item} {statements' : List Statement}
    (h : List.Forall₂ Statement.Relaxes item.statements statements') :
    ∃ item' : Item, item'.statements = statements' ∧ item.Relaxes item' := by
  cases item with
  | plain line =>
    obtain ⟨statement', nil', hline, hnil, rfl⟩ := List.forall₂_cons_left_iff.mp h
    obtain ⟨line', rfl, hline'⟩ := PlainLine.exists_relaxes hline
    cases hnil
    exact ⟨.plain line', rfl, .plain hline'⟩
  | function f =>
    obtain ⟨statement', more', hheader, hrest, rfl⟩ := List.forall₂_cons_left_iff.mp h
    obtain ⟨block', last', rfl, hbody, hlast⟩ := exists_append_of_forall₂ hrest
    obtain ⟨close', nil', hclose, hnil, rfl⟩ := List.forall₂_cons_left_iff.mp hlast
    obtain ⟨body', rfl, hbody'⟩ := Body.exists_relaxes hbody
    cases hclose
    cases hnil
    cases hheader with
    | same => exact ⟨.function ⟨f.header, body'⟩, rfl, .function ⟨.refl _, hbody'⟩⟩
    | @function _ h' relaxed => exact ⟨.function ⟨h', body'⟩, rfl, .function ⟨relaxed, hbody'⟩⟩

theorem Item.exists_relaxes_all {items : List Item} {statements' : List Statement}
    (h : List.Forall₂ Statement.Relaxes (items.flatMap Item.statements) statements') :
    ∃ items' : List Item, items'.flatMap Item.statements = statements' ∧ List.Forall₂ Item.Relaxes items items' := by
  induction items generalizing statements' with
  | nil => cases h; exact ⟨[], rfl, .nil⟩
  | cons item items ih =>
    obtain ⟨here', more', rfl, hitem, hmore⟩ := exists_append_of_forall₂ h
    obtain ⟨item', rfl, hitem'⟩ := Item.exists_relaxes hitem
    obtain ⟨items', rfl, hitems'⟩ := ih hmore
    exact ⟨item' :: items', rfl, .cons hitem' hitems'⟩

theorem PlainLine.Relaxes.statement {line line' : PlainLine} (h : line.Relaxes line') :
    line.statement.Relaxes line'.statement := by
  cases h with
  | declaration relaxed => exact .declaration relaxed
  | _ => exact .same _

theorem Body.Relaxes.statements {body body' : Body} (h : body.Relaxes body') :
    List.Forall₂ Statement.Relaxes body.statements body'.statements := by
  induction h with
  | nil => exact .nil
  | plain first _ ih => exact .cons first.statement ih
  | call _ ih => exact .cons (.same _) ih
  | «return» _ ih => exact .cons (.same _) ih
  | guard _ _ ihblock ihmore => exact .cons (.same _) (List.rel_append ihblock (.cons (.same _) ihmore))

/-- A relaxed body ends in a `return` as before. -/
theorem Body.EndsInReturn.of_relaxes {body body' : Body} (h : body.EndsInReturn) (hrelaxes : body.Relaxes body') :
    body'.EndsInReturn := by
  have hsilent : ∀ ⦃a b : Statement⦄, a.Relaxes b → ((!a.isSilent) = true ↔ (!b.isSilent) = true) := by
    intro a b hab
    cases hab <;> rfl
  have hfilter := List.rel_filter hsilent hrelaxes.statements
  obtain ⟨before, hlast⟩ := List.getLast?_eq_some_iff.mp h
  rw [hlast] at hfilter
  obtain ⟨before', last', heq, -, hlast'⟩ := exists_append_of_forall₂ hfilter
  obtain ⟨statement', nil', hreturn, hnil, rfl⟩ := List.forall₂_cons_left_iff.mp hlast'
  cases hreturn
  cases hnil
  rw [EndsInReturn, heq, List.getLast?_concat]

/-! ### What is legal stays legal -/

/-- The names that the line declares. -/
def PlainLine.declared : PlainLine → List String
  | declaration d => d.declarators.map Declarator.name
  | _ => []

/-- The names that the item declares outside functions. -/
def Item.declared : Item → List String
  | plain line => line.declared
  | function _ => []

section Legal

variable {extra : List String} {k : Nat} {env env₁ env' : Env} {headers headers' : List Header}

theorem Declares.exists_of_relaxes {isFinal isFinal' : Bool} {ty : Ty} {ds ds' : List Declarator}
    (h : Declares isFinal ty env ds env₁) (hds : List.Forall₂ (Declarator.Relaxes ty) ds ds')
    (hfinal : isFinal' = true → isFinal = true) (hextends : Extends Standing.Eases extra k env env')
    (hnew : k = 0 → ∀ name ∈ ds.map Declarator.name, name ∉ extra) :
    ∃ env₁', Declares isFinal' ty env' ds' env₁' ∧ Extends Standing.Eases extra k env₁ env₁' := by
  induction h generalizing env' ds' with
  | nil => cases hds; exact ⟨env', .nil, hextends⟩
  | @cons env env₁ d ds fits fresh rest ih =>
    obtain ⟨d', ds', hd, hmore, rfl⟩ := List.forall₂_cons_left_iff.mp hds
    have heases : Standing.Eases ⟨ty, isFinal, d.init.isSome⟩ ⟨ty, isFinal', d'.init.isSome⟩ := by
      refine ⟨rfl, hfinal, fun hsome => ?_⟩
      obtain hsame | ⟨-, l, hl, -⟩ := hd.init
      · exact (congrArg Option.isSome hsame).trans hsome
      · exact congrArg Option.isSome hl
    have hfits : ∀ v, d'.init = some v → v.Fits ty env' := by
      intro v hv
      obtain hsame | ⟨-, l, hl, hfit⟩ := hd.init
      · exact (fits v (hsame.symm.trans hv)).of_extends hextends
      · obtain rfl := Option.some.inj (hl.symm.trans hv)
        exact hfit
    obtain ⟨env₁', hrest, hextends₁⟩ := ih hmore (hextends.add heases d.name) fun hk name hname =>
      hnew hk name (List.mem_cons_of_mem _ hname)
    have hfresh : env'.inner d.name = none := hextends.inner_eq_none fresh fun hk => hnew hk _ List.mem_cons_self
    refine ⟨env₁', .cons hfits ?_ ?_, hextends₁⟩
    · rw [hd.name]
      exact hfresh
    · rw [hd.name]
      exact hrest

theorem PlainLine.Legal.exists_of_relaxes {line line' : PlainLine} (h : line.Legal env env₁)
    (hrelaxes : line.Relaxes line') (hextends : Extends Standing.Eases extra k env env')
    (hnew : k = 0 → ∀ name ∈ line.declared, name ∉ extra) :
    ∃ env₁', line'.Legal env' env₁' ∧ Extends Standing.Eases extra k env₁ env₁' := by
  cases hrelaxes with
  | blank => cases h; exact ⟨env', .blank, hextends⟩
  | comment => cases h; exact ⟨env', .comment, hextends⟩
  | assignment =>
    cases h with
    | assignment assigns =>
      obtain ⟨env₁', hassigns, hextends₁⟩ := assigns.exists_of_extends hextends
      exact ⟨env₁', .assignment hassigns, hextends₁⟩
  | declaration relaxed =>
    cases h with
    | declaration declares =>
      obtain ⟨env₁', hdeclares, hextends₁⟩ :=
        declares.exists_of_relaxes relaxed.declarators relaxed.isFinal hextends hnew
      refine ⟨env₁', .declaration ?_, hextends₁⟩
      rw [relaxed.ty]
      exact hdeclares

/-- Values that fit parameters fit relaxed parameters where more is allowed. -/
theorem forall₂_fits_of_relaxes {args : List Value} {params params' : List Param}
    (hargs : List.Forall₂ (fun (a : Value) (p : Param) => a.Fits p.ty env) args params)
    (hparams : List.Forall₂ Param.Relaxes params params') (hextends : Extends Standing.Eases extra k env env') :
    List.Forall₂ (fun (a : Value) (p : Param) => a.Fits p.ty env') args params' := by
  induction hargs generalizing params' with
  | nil => cases hparams; exact .nil
  | @cons a p args params ha _ ih =>
    obtain ⟨p', params', hp, hmore, rfl⟩ := List.forall₂_cons_left_iff.mp hparams
    have hfits := ha.of_extends hextends
    rw [← hp.ty] at hfits
    exact .cons hfits (ih hmore)

theorem Call.Legal.of_relaxes {c : Call} (h : c.Legal headers env)
    (hheaders : List.Forall₂ Header.Relaxes headers headers') (hextends : Extends Standing.Eases extra k env env') :
    c.Legal headers' env' := by
  obtain ⟨hd, hmem, hname, hargs⟩ := h
  obtain ⟨hd', hmem', hrelaxes⟩ := exists_mem_of_forall₂ hheaders hmem
  exact ⟨hd', hmem', hrelaxes.name.trans hname, forall₂_fits_of_relaxes hargs hrelaxes.params hextends⟩

/-- A relaxed body is legal where more is allowed. -/
theorem Body.Legal.exists_of_relaxes {body body' : Body} (h : body.Legal headers env env₁)
    (hrelaxes : body.Relaxes body') (hheaders : List.Forall₂ Header.Relaxes headers headers')
    (hextends : Extends Standing.Eases extra (k + 1) env env') :
    ∃ env₁', body'.Legal headers' env' env₁' ∧ Extends Standing.Eases extra (k + 1) env₁ env₁' := by
  induction h generalizing k env' body' with
  | nil => cases hrelaxes; exact ⟨env', .nil, hextends⟩
  | plain first _ ih =>
    cases hrelaxes with
    | plain hfirst hmore =>
      obtain ⟨env₁', hline, hextends₁⟩ := first.exists_of_relaxes hfirst hextends nofun
      obtain ⟨env₂', hrest, hextends₂⟩ := ih hmore hextends₁
      exact ⟨env₂', .plain hline hrest, hextends₂⟩
  | call first _ ih =>
    cases hrelaxes with
    | call hmore =>
      obtain ⟨env₁', hrest, hextends₁⟩ := ih hmore hextends
      exact ⟨env₁', .call (first.of_relaxes hheaders hextends) hrest, hextends₁⟩
  | «return» _ ih =>
    cases hrelaxes with
    | «return» hmore =>
      obtain ⟨env₁', hrest, hextends₁⟩ := ih hmore hextends
      exact ⟨env₁', .return hrest, hextends₁⟩
  | guard first _ _ ihblock ihmore =>
    cases hrelaxes with
    | guard hblock hmore =>
      obtain ⟨env₁', hinner, hextends₁⟩ := ihblock hblock hextends.openScope
      obtain ⟨env₂', hrest, hextends₂⟩ := ihmore hmore hextends₁.closeScope
      exact ⟨env₂', .guard (fun v hv => (first v hv).of_extends hextends) hinner hrest, hextends₂⟩

theorem withParams_extends {params params' : List Param} (h : List.Forall₂ Param.Relaxes params params')
    (hextends : Extends Standing.Eases extra k env env') :
    Extends Standing.Eases extra k (Env.withParams env params) (Env.withParams env' params') := by
  induction h generalizing env env' with
  | nil => exact hextends
  | @cons p p' ps ps' hp _ ih =>
    have heases : Standing.Eases ⟨p.ty, p.isFinal, true⟩ ⟨p'.ty, p'.isFinal, true⟩ := ⟨hp.ty, hp.isFinal, id⟩
    refine ih ?_
    dsimp only
    rw [hp.name]
    exact hextends.add heases p.name

/-- A relaxed function is legal with globals that allow more. -/
theorem Function.Legal.of_relaxes {f f' : Function} (h : f.Legal headers env) (hrelaxes : f.Relaxes f')
    (hheaders : List.Forall₂ Header.Relaxes headers headers') (hextends : Extends Standing.Eases extra 0 env env') :
    f'.Legal headers' env' := by
  obtain ⟨hparams, hreturns, env₁, hbody⟩ := h
  have hnames : f'.header.params.map Param.name = f.header.params.map Param.name :=
    map_eq_of_forall₂ hrelaxes.header.params fun _ _ hp => hp.name
  obtain ⟨env₁', hbody', -⟩ := hbody.exists_of_relaxes hrelaxes.body hheaders
    (withParams_extends hrelaxes.header.params hextends.openScope)
  exact ⟨hnames ▸ hparams, hreturns.of_relaxes hrelaxes.body, env₁', hbody'⟩

/-- Relaxed lines outside functions are legal, and lead to globals that allow more. -/
theorem Globals.exists_of_relaxes {items items' : List Item} (h : Globals env items env₁)
    (hrelaxes : List.Forall₂ Item.Relaxes items items') (hextends : Extends Standing.Eases extra 0 env env')
    (hnew : ∀ name ∈ items.flatMap Item.declared, name ∉ extra) :
    ∃ env₁', Globals env' items' env₁' ∧ Extends Standing.Eases extra 0 env₁ env₁' := by
  induction h generalizing env' items' with
  | nil => cases hrelaxes; exact ⟨env', .nil, hextends⟩
  | plain first _ ih =>
    obtain ⟨item', more', hitem, hmore, rfl⟩ := List.forall₂_cons_left_iff.mp hrelaxes
    cases hitem with
    | plain relaxed =>
      rw [List.flatMap_cons, List.forall_mem_append] at hnew
      obtain ⟨env₁', hline, hextends₁⟩ := first.exists_of_relaxes relaxed hextends fun _ => hnew.1
      obtain ⟨env₂', hrest, hextends₂⟩ := ih hmore hextends₁ hnew.2
      exact ⟨env₂', .plain hline hrest, hextends₂⟩
  | function _ ih =>
    obtain ⟨item', more', hitem, hmore, rfl⟩ := List.forall₂_cons_left_iff.mp hrelaxes
    cases hitem with
    | function _ =>
      obtain ⟨env₁', hrest, hextends₁⟩ := ih hmore hextends hnew
      exact ⟨env₁', .function hrest, hextends₁⟩

end Legal

/-! ### Relaxed programs are legal -/

theorem Item.functions_relaxes {items items' : List Item} (h : List.Forall₂ Item.Relaxes items items') :
    List.Forall₂ Function.Relaxes (items.filterMap Item.function?) (items'.filterMap Item.function?) := by
  induction h with
  | nil => exact .nil
  | cons hitem _ ih =>
    cases hitem with
    | plain _ => exact ih
    | function relaxed => exact .cons relaxed ih

theorem Item.headers_relaxes {items items' : List Item} (h : List.Forall₂ Item.Relaxes items items') :
    List.Forall₂ Header.Relaxes (Item.headers items) (Item.headers items') := by
  rw [Item.headers, Item.headers, List.forall₂_map_left_iff, List.forall₂_map_right_iff]
  exact (Item.functions_relaxes h).imp fun _ _ hf => hf.header

/-- A legal program is legal when it is relaxed. -/
theorem Program.Legal.of_relaxes {p p' : Program} (h : p.Legal) (hrelaxes : List.Forall₂ Item.Relaxes p.items p'.items) :
    p'.Legal := by
  obtain ⟨hnames, globals, hglobals, hfunctions⟩ := h
  have hheaders : List.Forall₂ Header.Relaxes p.headers p'.headers := Item.headers_relaxes hrelaxes
  have hstart : Extends Standing.Eases [] 0 Layers.empty Layers.empty := Layers.extends_self Standing.Eases.refl rfl
  obtain ⟨globals', hglobals', hextends⟩ := hglobals.exists_of_relaxes hrelaxes hstart fun _ _ => List.not_mem_nil
  refine ⟨?_, globals', hglobals', fun f' hf' => ?_⟩
  · rw [map_eq_of_forall₂ hheaders fun _ _ hh => hh.name]
    exact hnames
  · obtain ⟨f, hf, hrelaxed⟩ := exists_mem_of_forall₂ (A := flip Function.Relaxes)
      (Item.functions_relaxes hrelaxes).flip hf'
    exact (hfunctions f hf).of_relaxes hrelaxed hheaders hextends

/-- Finality and missing first values only restrict.  A source that is accepted is accepted with any of its lines
relaxed: with `final` dropped from declarations and parameters, and with literals that fit as first values of variables
that had none. -/
theorem verdict_of_relaxes {source source' : Source} {as bs : List Statement} (h : source.verdict = .ok ())
    (hread : List.Forall₂ TextReads source.lineTexts as) (hread' : List.Forall₂ TextReads source'.lineTexts bs)
    (hrelaxes : List.Forall₂ Statement.Relaxes as bs) : source'.verdict = .ok () := by
  obtain ⟨p, hp⟩ := exists_isReadFrom h
  have hlegal := (verdict_eq_ok_iff_legal hp).mp h
  have hunique : Relator.RightUnique TextReads := fun _ _ _ => TextReads.unique
  obtain rfl : as = p.statements := List.right_unique_forall₂' hunique hread (Program.isReadFrom_iff_textReads.mp hp)
  obtain ⟨items', rfl, hitems'⟩ := Item.exists_relaxes_all hrelaxes
  have hp' : Program.IsReadFrom ⟨items'⟩ source' := Program.isReadFrom_iff_textReads.mpr hread'
  exact (verdict_eq_ok_iff_legal hp').mpr (hlegal.of_relaxes hitems')

/-- A final global and a final parameter, and two variables without values, one of them in a function. -/
def strict : Source :=
  ⟨"strict", "final int a = 1;\nint b;\nvoid f(final int x) \x7b\n  boolean c;\n  b = x;\n  return;\n\x7d\n"⟩

/-- The same without `final`, and with values. -/
def relaxed : Source :=
  ⟨"relaxed", "int a = 1;\nint b = 2;\nvoid f(int x) \x7b\n  boolean c = 3;\n  b = x;\n  return;\n\x7d\n"⟩

theorem verdict_of_relaxes_everywhere :
    strict.verdict = .ok () ∧ relaxed.verdict = .ok () := by
  have haccepted : strict.verdict = .ok () := by decide +kernel
  have hread : List.Forall₂ TextReads strict.lineTexts
      [.declaration ⟨true, .int, [⟨"a", some (.literal (.int "1"))⟩]⟩, .declaration ⟨false, .int, [⟨"b", none⟩]⟩,
        .function ⟨"f", [⟨"x", .int, true⟩]⟩, .declaration ⟨false, .boolean, [⟨"c", none⟩]⟩,
        .assignment [⟨"b", .name "x"⟩], .return, .closeBrace] := by
    decide +kernel
  have hread' : List.Forall₂ TextReads relaxed.lineTexts
      [.declaration ⟨false, .int, [⟨"a", some (.literal (.int "1"))⟩]⟩,
        .declaration ⟨false, .int, [⟨"b", some (.literal (.int "2"))⟩]⟩, .function ⟨"f", [⟨"x", .int, false⟩]⟩,
        .declaration ⟨false, .boolean, [⟨"c", some (.literal (.int "3"))⟩]⟩, .assignment [⟨"b", .name "x"⟩], .return,
        .closeBrace] := by
    decide +kernel
  refine ⟨haccepted, verdict_of_relaxes haccepted hread hread' ?_⟩
  refine .cons (.declaration ⟨rfl, fun _ => rfl, .cons ⟨rfl, .inl rfl⟩ .nil⟩) ?_
  refine .cons (.declaration ⟨rfl, id, .cons ⟨rfl, .inr ⟨rfl, _, rfl, rfl⟩⟩ .nil⟩) ?_
  refine .cons (.function ⟨rfl, .cons ⟨rfl, rfl, fun _ => rfl⟩ .nil⟩) ?_
  refine .cons (.declaration ⟨rfl, id, .cons ⟨rfl, .inr ⟨rfl, _, rfl, rfl⟩⟩ .nil⟩) ?_
  exact .cons (.same _) (.cons (.same _) (.cons (.same _) .nil))

end LineCheck
