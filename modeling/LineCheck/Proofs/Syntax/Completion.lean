import LineCheck.Proofs.Syntax.Layout
import LineCheck.Proofs.Syntax.Locality

/-!
# LineCheck.Proofs.Syntax.Completion — where a line stops being one

A parser is `Completable` if, wherever it fails, the tokens that it has taken go on to the spelling of something that it
makes.  There is one lemma for each combinator, as there is for what a parser recognises: two parsers in turn are
completed by what completes the one that fails and, if it is the first, by any spelling of the second behind it.
-/

namespace LineCheck

open Text

/-- The texts are those of tokens of these kinds. -/
def Written (fs : List TokenForm) : Prop :=
  ∀ f ∈ fs, f.kind.Admits f.text.toList

theorem Written.nil : Written [] :=
  nofun

theorem Written.append {fs gs : List TokenForm} (hf : Written fs) (hg : Written gs) : Written (fs ++ gs) :=
  List.forall_mem_append.mpr ⟨hf, hg⟩

theorem written_word (k : Keyword) : Written [.word k] :=
  List.forall_mem_singleton.mpr rfl

theorem written_sign (s : Symbol) : Written [.sign s] :=
  List.forall_mem_singleton.mpr rfl

namespace TokenParser

variable {α β : Type} {p : TokenParser α} {ts rest : List Token} {good : α → Prop} {spell : α → List TokenForm}
  {spells spells' : α → List TokenForm → Prop}

/-- Something can be spelled, and where the parser fails, the tokens that it has taken go on to a spelling. -/
structure Completable (p : TokenParser α) (spells : α → List TokenForm → Prop) : Prop where
  spelled : ∃ a fs, spells a fs ∧ Written fs
  completes : ∀ ⦃ts e rest⦄, (∀ t ∈ ts, t.Shaped) → p.run ts = (.error e, rest) →
    ∃ taken a more, ts.map Token.form = taken ++ rest.map Token.form ∧ spells a (taken ++ more) ∧ Written more

/-! ### Combinators -/

/-- A parser that fails at the first token only. -/
theorem completable_of_stays (hspelled : ∃ a fs, spells a fs ∧ Written fs)
    (hstays : ∀ ⦃ts e rest⦄, p.run ts = (.error e, rest) → rest = ts) : Completable p spells where
  spelled := hspelled
  completes := by
    intro ts e rest _ hrun
    obtain rfl := hstays hrun
    obtain ⟨a, fs, hspells, hwritten⟩ := hspelled
    exact ⟨[], a, fs, rfl, hspells, hwritten⟩

theorem completable_pure (a : α) : Completable (pure a) (Spelled (a = ·) fun _ => []) :=
  completable_of_stays ⟨a, [], ⟨rfl, rfl⟩, .nil⟩ fun _ _ _ h => by cases h

theorem completable_fail (wanted : Expected) (hspelled : ∃ a fs, spells a fs ∧ Written fs) :
    Completable (fail wanted) spells :=
  completable_of_stays hspelled fun _ _ _ h => by cases h; rfl

theorem completable_take {wanted : Expected} {read : Token → Option α} (hspelled : ∃ a fs, spells a fs ∧ Written fs) :
    Completable (take wanted read) spells := by
  refine completable_of_stays hspelled fun ts e rest h => ?_
  cases ts with
  | nil => cases h; rfl
  | cons t ts =>
    cases ht : read t with
    | some a => rw [run_take_of_some ht] at h; cases h
    | none => rw [run_take_of_none ht] at h; cases h; rfl

theorem completable_one {f : TokenForm} (hf : Written [f]) :
    Completable (one f.kind) (Spelled (fun _ => True) fun _ => [f]) :=
  completable_take ⟨(), [f], ⟨trivial, rfl⟩, hf⟩

theorem completable_word (k : Keyword) :
    Completable (one (.keyword k)) (Spelled (fun _ => True) fun _ => [.word k]) :=
  completable_one (written_word k)

theorem completable_sign (s : Symbol) :
    Completable (one (.symbol s)) (Spelled (fun _ => True) fun _ => [.sign s]) :=
  completable_one (written_sign s)

theorem completable_optional (f : TokenForm) :
    Completable (optional f.kind) (Spelled (fun _ => True) fun b => if b then [f] else []) := by
  refine completable_of_stays ⟨false, [], ⟨trivial, rfl⟩, .nil⟩ fun ts e rest h => ?_
  cases ts with
  | nil => cases h
  | cons t ts =>
    simp only [optional] at h
    split at h <;> cases h

/-- One of two parsers. -/
theorem completable_ite {q : TokenParser α} {c : Bool} (hp : Completable p spells) (hq : Completable q spells') :
    Completable (if c = true then p else q) (if c = true then spells else spells') := by
  split
  · exact hp
  · exact hq

/-- A parser that is chosen by the coming tokens. -/
theorem completable_upcoming {f : List TokenKind → TokenParser α} (hf : ∀ ks, Completable (f ks) spells) :
    Completable (upcoming >>= f) spells where
  spelled := (hf []).spelled
  completes := by
    intro ts e rest hts h
    exact (hf ((ts.take 2).map Token.kind)).completes hts h

namespace Completable

theorem congr (hp : Completable p spells) (h : ∀ a fs, spells a fs → spells' a fs) : Completable p spells' where
  spelled := by
    obtain ⟨a, fs, hspells, hwritten⟩ := hp.spelled
    exact ⟨a, fs, h a fs hspells, hwritten⟩
  completes := by
    intro ts e rest hts hrun
    obtain ⟨taken, a, more, htaken, hspells, hwritten⟩ := hp.completes hts hrun
    exact ⟨taken, a, more, htaken, h a _ hspells, hwritten⟩

/-- Two parsers in turn. -/
theorem bind {f : α → TokenParser β} {spells : α → β → List TokenForm → Prop} {stop : TokenKind → Prop}
    (hp : Completable p (Spelled good spell)) (hsound : Recognises p (Spelled good spell) stop)
    (hf : ∀ a, Completable (f a) (spells a)) :
    Completable (p >>= f) (fun b fs => ∃ a, good a ∧ Behind (spell a) (spells a b) fs) where
  spelled := by
    obtain ⟨a, _, ⟨hgood, rfl⟩, hwritten⟩ := hp.spelled
    obtain ⟨b, fs, hspells, hwritten'⟩ := (hf a).spelled
    exact ⟨b, spell a ++ fs, ⟨a, hgood, fs, hspells, rfl⟩, hwritten.append hwritten'⟩
  completes := by
    intro ts e rest hts h
    rw [run_bind] at h
    cases hrun : p.run ts with
    | mk r mid =>
      rw [hrun] at h
      cases r with
      | error e' =>
        -- the first one fails, and any spelling of the second one goes behind what completes it
        cases h
        obtain ⟨taken, a, more, htaken, ⟨hgood, hspell⟩, hwritten⟩ := hp.completes hts hrun
        obtain ⟨b, fs, hspells, hwritten'⟩ := (hf a).spelled
        refine ⟨taken, b, more ++ fs, htaken, ⟨a, hgood, fs, hspells, ?_⟩, hwritten.append hwritten'⟩
        rw [← hspell, List.append_assoc]
      | ok a =>
        obtain ⟨_, ⟨hgood, rfl⟩, hforms⟩ := hsound.sound hts hrun
        obtain ⟨taken, b, more, htaken, hspells, hwritten⟩ := (hf a).completes (shaped_rest hts hrun) h
        refine ⟨spell a ++ taken, b, more, ?_, ⟨a, hgood, taken ++ more, hspells, ?_⟩, hwritten⟩
        · rw [hforms, htaken, List.append_assoc]
        · rw [List.append_assoc]

/-- A parser whose result becomes part of another one. -/
theorem map (hp : Completable p (Spelled good spell)) (g : α → β) :
    Completable (p >>= fun a => pure (g a)) (fun b fs => ∃ a, good a ∧ g a = b ∧ fs = spell a) where
  spelled := by
    obtain ⟨a, fs, ⟨hgood, hspell⟩, hwritten⟩ := hp.spelled
    exact ⟨g a, fs, ⟨a, hgood, rfl, hspell⟩, hwritten⟩
  completes := by
    intro ts e rest hts h
    rw [run_bind] at h
    cases hrun : p.run ts with
    | mk r mid =>
      rw [hrun] at h
      cases r with
      | ok a => cases h
      | error e' =>
        cases h
        obtain ⟨taken, a, more, htaken, ⟨hgood, hspell⟩, hwritten⟩ := hp.completes hts hrun
        exact ⟨taken, g a, more, htaken, ⟨a, hgood, rfl, hspell⟩, hwritten⟩

/-- A parser whose result becomes something that is spelled in the same way. -/
theorem mapSpelled {good' : β → Prop} {spell' : β → List TokenForm} (hp : Completable p (Spelled good spell))
    (g : α → β) (hg : ∀ a, good a → good' (g a) ∧ spell' (g a) = spell a) :
    Completable (p >>= fun a => pure (g a)) (Spelled good' spell') := by
  refine (hp.map g).congr fun b fs => ?_
  rintro ⟨a, hgood, rfl, rfl⟩
  obtain ⟨hgood', hspell⟩ := hg a hgood
  exact ⟨hgood', hspell.symm⟩

end Completable

/-- Items each behind a token that joins them. -/
theorem completable_links {join : TokenKind → Option β} {item : TokenParser α} {link : β → TokenForm}
    {stop : TokenKind → Prop} (hjoin : ∀ (t : Token) b, t.Shaped → join t.kind = some b → t.form = link b)
    (hitem : Completable item (Spelled good spell)) (hsound : Recognises item (Spelled good spell) stop) :
    Completable (links join item)
      (Spelled (fun more => ∀ ba ∈ more, good ba.2) fun more => more.flatMap fun ba => link ba.1 :: spell ba.2) where
  spelled := ⟨[], [], ⟨fun ba hba => absurd hba List.not_mem_nil, rfl⟩, .nil⟩
  completes := by
    intro ts
    show ∀ e rest, _ → linksFrom join item ts = (.error e, rest) → _
    fun_induction linksFrom join item ts with
    | case1 => rintro e rest - h; cases h
    | case2 t ts hnone => rintro e rest - h; cases h
    | case3 t ts b hb e mid hrun =>
      -- the item fails, so this pair is the last one
      rintro _ rest hts h
      cases h
      obtain ⟨ht, hts⟩ := List.forall_mem_cons.mp hts
      obtain ⟨taken, a, more, htaken, ⟨hgood, hspell⟩, hwritten⟩ := hitem.completes hts hrun
      refine ⟨link b :: taken, [(b, a)], more, ?_, ⟨List.forall_mem_singleton.mpr hgood, ?_⟩, hwritten⟩
      · rw [List.map_cons, hjoin t b ht hb, htaken]
        rfl
      · rw [List.cons_append, hspell]
        simp
    | case4 t ts b hb a mid hrun e last hmore ih =>
      rintro _ rest hts h
      cases h
      obtain ⟨ht, hts⟩ := List.forall_mem_cons.mp hts
      obtain ⟨_, ⟨hgood, rfl⟩, hforms⟩ := hsound.sound hts hrun
      obtain ⟨taken, as, more, htaken, ⟨hgoods, hspell⟩, hwritten⟩ := ih e last (shaped_rest hts hrun) hmore
      have hitems : ∀ ba ∈ (b, a) :: as, good ba.2 := List.forall_mem_cons.mpr ⟨hgood, hgoods⟩
      refine ⟨link b :: (spell a ++ taken), (b, a) :: as, more, ?_, ⟨hitems, ?_⟩, hwritten⟩
      · rw [List.map_cons, hjoin t b ht hb, hforms, htaken]
        simp
      · show _ = List.flatMap _ ((b, a) :: as)
        rw [List.flatMap_cons, ← show taken ++ more = List.flatMap _ as from hspell]
        simp
    | case5 t ts b hb a mid hrun more last hmore ih => rintro e rest - h; cases h

theorem completable_commaList {item : TokenParser α} {stop : TokenKind → Prop}
    (hitem : Completable item (Spelled good spell)) (hsound : Recognises item (Spelled good spell) stop)
    (hstop : stop (.symbol .comma)) :
    Completable (commaList item) (Spelled (fun as => as ≠ [] ∧ ∀ a ∈ as, good a) (commaSpelling spell)) := by
  have hmore : Completable (links comma item) _ := completable_links form_of_comma hitem hsound
  refine (hitem.bind hsound fun first => (hmore.bind (recognises_commas hsound hstop) fun more =>
    completable_pure (first :: more.map Prod.snd))).congr fun as fs => ?_
  simp only [behind_exists, behind_and, behind_spelled, behind_eq, List.append_nil]
  rintro ⟨first, hfirst, more, hmore, rfl, rfl⟩
  refine ⟨⟨List.cons_ne_nil _ _, List.forall_mem_cons.mpr ⟨hfirst, List.forall_mem_map.mpr hmore⟩⟩, ?_⟩
  rw [commaSpelling, List.flatMap_map]

end TokenParser

/-! ### The grammar -/

namespace Grammar

open TokenParser

theorem written_value : Written [(Value.literal (.boolean true)).form] :=
  written_word (.truth true)

theorem variableName_a : VariableName "a" :=
  ⟨.inl ⟨'a', [], rfl, rfl, fun _ h => absurd h List.not_mem_nil⟩, Keyword.word_ne_of_ofWord? (by decide +kernel)⟩

theorem completable_type : Completable type (Spelled (fun _ => True) fun ty => [.word (.type ty)]) :=
  completable_take ⟨.int, [.word (.type .int)], ⟨trivial, rfl⟩, written_word _⟩

theorem completable_variableName : Completable variableName (Spelled VariableName fun x => [.name x]) :=
  completable_take ⟨"a", [.name "a"], ⟨variableName_a, rfl⟩, List.forall_mem_singleton.mpr variableName_a.admits⟩

theorem completable_functionName : Completable functionName (Spelled FunctionName fun f => [.name f]) := by
  have hname : FunctionName "a" := by
    obtain ⟨h | ⟨c, cs, htext, -⟩, hfree⟩ := variableName_a
    · exact ⟨h, hfree⟩
    · cases (List.cons.inj htext).1
  exact completable_take ⟨"a", [.name "a"], ⟨hname, rfl⟩, List.forall_mem_singleton.mpr variableName_a.admits⟩

theorem completable_value : Completable value (Spelled Value.WellFormed fun v => [v.form]) :=
  completable_take ⟨.literal (.boolean true), _, ⟨trivial, rfl⟩, written_value⟩

theorem completable_operand : Completable operand (Spelled Value.IsOperand fun v => [v.form]) := by
  have hspelled : ∃ v fs, Spelled Value.IsOperand (fun v => [v.form]) v fs ∧ Written fs := by
    have hgood : Value.IsOperand (.literal (.boolean true)) := ⟨trivial, by simp⟩
    exact ⟨_, _, ⟨hgood, rfl⟩, written_value⟩
  refine completable_upcoming fun ks => ?_
  split
  · exact completable_fail _ hspelled
  · exact completable_fail _ hspelled
  · exact completable_take hspelled

theorem completable_final : Completable (optional (.keyword .final)) (Spelled (fun _ => True) finalSpelling) :=
  completable_optional (.word .final)

theorem completable_declarator (isFinal : Bool) :
    Completable (declarator isFinal) (Spelled (Declarator.WellFormed isFinal) Declarator.spelling) := by
  have hvalue : ∀ x, Completable (value >>= fun v => pure (Declarator.mk x (some v))) _ :=
    fun x => completable_value.map fun v => Declarator.mk x (some v)
  cases isFinal with
  | true =>
    refine (completable_variableName.bind recognises_variableName fun x =>
      (completable_sign .assign).bind (recognises_sign .assign) fun _ => hvalue x).congr fun d fs => ?_
    simp only [behind_exists, behind_and, behind_eq, exists_const, true_and]
    rintro ⟨x, hx, v, hv, rfl, rfl⟩
    exact ⟨⟨hx, by simpa using hv, fun _ => rfl⟩, rfl⟩
  | false =>
    refine (completable_variableName.bind recognises_variableName fun x =>
      (completable_optional (.sign .assign)).bind (recognises_optional (fixed_sign .assign)) fun given =>
        completable_ite (hvalue x) (completable_pure (Declarator.mk x none))).congr fun d fs => ?_
    simp only [behind_exists, behind_or, behind_and, behind_eq, behind_spelled, true_and, Bool.exists_bool, if_true,
      if_false, Bool.false_eq_true]
    rintro ⟨x, hx, ⟨rfl, rfl⟩ | ⟨v, hv, rfl, rfl⟩⟩
    · exact ⟨⟨hx, by simp, by simp⟩, rfl⟩
    · exact ⟨⟨hx, by simpa using hv, by simp⟩, rfl⟩

theorem completable_assignment : Completable assignment (Spelled Assignment.WellFormed Assignment.spelling) := by
  refine (completable_variableName.bind recognises_variableName fun x =>
    (completable_sign .assign).bind (recognises_sign .assign) fun _ =>
      completable_value.map (Assignment.mk x)).congr fun a fs => ?_
  simp only [behind_exists, behind_and, behind_eq, exists_const, true_and]
  rintro ⟨x, hx, v, hv, rfl, rfl⟩
  exact ⟨⟨hx, hv⟩, rfl⟩

theorem completable_param : Completable param (Spelled (fun p => VariableName p.name) Param.spelling) := by
  refine (completable_final.bind recognises_final fun isFinal => completable_type.bind recognises_type fun ty =>
    completable_variableName.map (Param.mk · ty isFinal)).congr fun p fs => ?_
  simp only [behind_exists, behind_and, behind_eq, true_and]
  rintro ⟨isFinal, ty, x, hx, rfl, rfl⟩
  exact ⟨hx, rfl⟩

/-- Items in parentheses, of which none has to be there. -/
theorem completable_parenthesised {α : Type} {item : TokenParser α} {good : α → Prop} {spell : α → List TokenForm}
    (hitem : Completable item (Spelled good spell)) (hsound : Recognises item (Spelled good spell) anyKind) :
    Completable (parenthesised item) (Spelled (fun as => ∀ a ∈ as, good a) (parenthesisedSpelling spell)) := by
  have hclose : ∀ as : List α, Completable (one (.symbol .rightParen) >>= fun _ => pure as) _ :=
    fun as => (completable_sign .rightParen).map fun _ => as
  refine ((completable_sign .leftParen).bind (recognises_sign .leftParen) fun _ => (?_ : Completable _
    (Spelled (fun as => ∀ a ∈ as, good a) fun as => commaSpelling spell as ++ [.sign .rightParen]))).congr
      fun as fs => ?_
  · refine completable_upcoming fun ks => ?_
    split
    · refine ((completable_pure []).bind (recognises_pure [] anyKind) hclose).congr fun as fs => ?_
      simp only [behind_and, behind_eq, exists_const, true_and]
      rintro ⟨_, rfl, rfl, rfl⟩
      exact ⟨fun a ha => absurd ha List.not_mem_nil, rfl⟩
    · refine ((completable_commaList hitem hsound trivial).bind (recognises_commaList hsound trivial) hclose).congr
        fun as fs => ?_
      simp only [behind_and, behind_eq, exists_const, true_and]
      rintro ⟨as, ⟨-, hgood⟩, rfl, rfl⟩
      exact ⟨hgood, rfl⟩
  · simp only [behind_spelled, exists_const, true_and]
    exact id

theorem completable_declaration : Completable declaration
    (Spelled (fun d => d.declarators ≠ [] ∧ ∀ x ∈ d.declarators, x.WellFormed d.isFinal) Declaration.spelling) := by
  refine (completable_final.bind recognises_final fun isFinal => completable_type.bind recognises_type fun ty =>
    (completable_commaList (completable_declarator isFinal) (recognises_declarator isFinal) nofun).bind
      (recognises_commaList (recognises_declarator isFinal) nofun)
      fun ds => (completable_sign .semicolon).map fun _ => Declaration.mk isFinal ty ds).congr fun d fs => ?_
  simp only [behind_exists, behind_and, behind_eq, exists_const, true_and]
  rintro ⟨isFinal, ty, ds, hds, rfl, rfl⟩
  exact ⟨hds, rfl⟩

theorem completable_assignments : Completable assignments (Spelled (fun as => as ≠ [] ∧ ∀ a ∈ as, a.WellFormed)
    fun as => commaSpelling Assignment.spelling as ++ [.sign .semicolon]) := by
  refine ((completable_commaList completable_assignment recognises_assignment trivial).bind
    (recognises_commaList recognises_assignment trivial)
    fun as => (completable_sign .semicolon).map fun _ => as).congr fun as fs => ?_
  simp only [behind_and, behind_eq, exists_const, true_and]
  rintro ⟨as, has, rfl, rfl⟩
  exact ⟨has, rfl⟩

theorem completable_header : Completable header
    (Spelled (fun h => FunctionName h.name ∧ ∀ p ∈ h.params, VariableName p.name) Header.spelling) := by
  refine ((completable_word .void).bind (recognises_word .void) fun _ =>
    completable_functionName.bind recognises_functionName fun f =>
    (completable_parenthesised completable_param recognises_param).bind recognises_params fun ps =>
    (completable_sign .leftBrace).map fun _ => Header.mk f ps).congr fun h fs => ?_
  simp only [behind_exists, behind_and, behind_eq, exists_const, true_and]
  rintro ⟨f, hf, ps, hps, rfl, rfl⟩
  exact ⟨⟨hf, hps⟩, rfl⟩

theorem completable_call : Completable call
    (Spelled (fun c => FunctionName c.name ∧ ∀ v ∈ c.args, v.WellFormed) Call.spelling) := by
  refine (completable_functionName.bind recognises_functionName fun f =>
    (completable_parenthesised completable_value recognises_value).bind recognises_args fun vs =>
    (completable_sign .semicolon).map fun _ => Call.mk f vs).congr fun c fs => ?_
  simp only [behind_exists, behind_and, behind_eq, exists_const, true_and]
  rintro ⟨f, hf, vs, hvs, rfl, rfl⟩
  exact ⟨⟨hf, hvs⟩, rfl⟩

theorem completable_condition : Completable condition
    (Spelled (fun c => ∀ v ∈ c.operands, v.IsOperand) Condition.spelling) := by
  have hlinks := completable_links form_of_connective completable_operand recognises_operand
  refine ((completable_sign .leftParen).bind (recognises_sign .leftParen) fun _ =>
    completable_operand.bind recognises_operand fun first => hlinks.bind recognises_connected fun links =>
    (completable_sign .rightParen).bind (recognises_sign .rightParen) fun _ =>
    (completable_sign .leftBrace).map fun _ => Condition.mk first links).congr fun c fs => ?_
  simp only [behind_exists, behind_and, behind_eq, exists_const, true_and]
  rintro ⟨first, hfirst, links, hlinks, rfl, rfl⟩
  exact ⟨List.forall_mem_cons.mpr ⟨hfirst, List.forall_mem_map.mpr hlinks⟩, rfl⟩

theorem completable_branch (ks : List TokenKind) :
    Completable (branch ks) (Spelled Statement.WellFormed Statement.spelling) := by
  have hdeclaration : Completable (declaration >>= fun d => pure (Statement.declaration d))
      (Spelled Statement.WellFormed Statement.spelling) :=
    completable_declaration.mapSpelled Statement.declaration fun _ hd => ⟨hd, rfl⟩
  unfold branch
  split
  · exact hdeclaration
  · exact hdeclaration
  · exact completable_header.mapSpelled Statement.function fun _ hh => ⟨hh, rfl⟩
  · next w _ =>
    refine ((completable_word (.guard w)).bind (recognises_word (.guard w)) fun _ =>
      completable_condition.map (Statement.guard w)).congr fun s fs => ?_
    rintro ⟨-, -, _, ⟨c, hc, rfl, rfl⟩, rfl⟩
    exact ⟨hc, rfl⟩
  · refine ((completable_word .return).bind (recognises_word .return) fun _ =>
      (completable_sign .semicolon).map fun _ => Statement.return).congr fun s fs => ?_
    rintro ⟨-, -, _, ⟨-, -, rfl, rfl⟩, rfl⟩
    exact ⟨trivial, rfl⟩
  · exact (completable_sign .rightBrace).mapSpelled (fun _ => Statement.closeBrace) fun _ _ => ⟨trivial, rfl⟩
  · exact completable_call.mapSpelled Statement.call fun _ hc => ⟨hc, rfl⟩
  · exact completable_assignments.mapSpelled Statement.assignment fun _ has => ⟨has, rfl⟩
  · exact completable_fail _ hdeclaration.spelled

/-- Where a line fails, the tokens that were taken go on to a statement. -/
theorem exists_statement_of_run_line {ts rest : List Token} {e : Expected} (hts : ∀ t ∈ ts, t.Shaped)
    (h : line.run ts = (.error e, rest)) :
    ∃ (taken : List TokenForm) (s : Statement) (more : List TokenForm),
      ts.map Token.form = taken ++ rest.map Token.form ∧ s.WellFormed ∧ s.spelling = taken ++ more ∧ Written more := by
  rw [line, run_bind] at h
  cases hrun : statement.run ts with
  | mk r mid =>
    rw [hrun] at h
    cases r with
    | error e' =>
      cases h
      obtain ⟨taken, s, more, htaken, ⟨hs, hspell⟩, hwritten⟩ :=
        (completable_branch ((ts.take 2).map Token.kind)).completes hts hrun
      exact ⟨taken, s, more, htaken, hs, hspell.symm, hwritten⟩
    | ok s =>
      -- the statement is there, and more tokens behind it
      obtain ⟨_, ⟨hs, rfl⟩, hforms⟩ := recognises_statement.sound hts hrun
      have hrest : rest = mid := by
        cases mid with
        | nil => cases h
        | cons t mid => cases h; rfl
      exact ⟨s.spelling, s, [], hrest ▸ hforms, hs, (List.append_nil _).symm, .nil⟩

end Grammar

/-! ### A line for a statement -/

/-- The tokens with a space before each of them. -/
def spaced (fs : List TokenForm) : List Char :=
  fs.flatMap fun f => ' ' :: f.text.toList

theorem layout_spaced (fs : List TokenForm) : Layout fs (spaced fs) := by
  induction fs with
  | nil => exact .done [] fun c hc => absurd hc List.not_mem_nil
  | cons f fs ih =>
    refine .token [' '] f (List.forall_mem_singleton.mpr rfl) (fun _ g hg _ => ?_) ih
    cases fs with
    | nil => cases hg
    | cons g fs => exact ⟨' ', rfl, rfl⟩

theorem Layout.not_allBlank {fs : List TokenForm} {text : String} (h : Layout fs text.toList) (hwritten : Written fs)
    (hne : fs ≠ []) : ¬ allBlank text = true := by
  intro hall
  obtain ⟨c, hc, hinitial⟩ := h.exists_isInitial hwritten hne
  have hblank := allBlank_iff.mp hall c hc
  rw [isBlank_of_isInitial hinitial] at hblank
  cases hblank

theorem Layout.not_isComment {fs : List TokenForm} {text : String} (h : Layout fs text.toList)
    (hwritten : Written fs) : ¬ isComment text = true := by
  intro hcomment
  obtain ⟨rest, hrest⟩ := isComment_iff.mp hcomment
  rcases h.head hwritten '/' (by rw [← hrest]; rfl) with hgap | ⟨f, -, -, hinitial⟩
  · exact absurd hgap (by decide)
  · exact absurd rfl hinitial.2.2

theorem Cursor.parseLine_eq_ok_iff {text : String} {s : Statement} :
    (Cursor.ofString text).parseLine.1 = .ok s ↔ s.WellFormed ∧ (TokenLine.ofString text).forms = s.spelling := by
  rw [Cursor.parseLine, Cursor.parse_fst_eq_ok_iff, Cursor.rest_ofString]
  exact Grammar.run_line_eq_ok_iff (Line.shaped_tokens text)

/-- A well-formed statement whose tokens can be written is that of some line. -/
theorem exists_line_of_statement {s : Statement} (hs : s.WellFormed) (hwritten : Written s.spelling) :
    ∃ text, ¬ allBlank text = true ∧ ¬ isComment text = true ∧ (Cursor.ofString text).parseLine.1 = .ok s ∧
      (TokenLine.ofString text).forms = s.spelling := by
  have hlayout : Layout s.spelling (String.ofList (spaced s.spelling)).toList := by
    rw [String.toList_ofList]
    exact layout_spaced s.spelling
  have hforms : (TokenLine.ofString (String.ofList (spaced s.spelling))).forms = s.spelling :=
    forms_of_layout hlayout hwritten (Loose.statement s) 0
  exact ⟨_, hlayout.not_allBlank hwritten (Statement.spelling_ne_nil hs), hlayout.not_isComment hwritten,
    Cursor.parseLine_eq_ok_iff.mpr ⟨hs, hforms⟩, hforms⟩

end LineCheck
