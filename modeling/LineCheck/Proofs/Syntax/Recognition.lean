import LineCheck.Proofs.Syntax.Spelling
import LineCheck.Syntax.Grammar

/-!
# LineCheck.Proofs.Syntax.Recognition — the parsers read spellings and nothing else

A parser `Recognises` a way of spelling if it is right about it in both directions: the tokens that it takes spell what
it makes, and of tokens that spell something it makes that.  The second half needs a token behind them that the parser
does not take too; `stop` says which tokens those are not.  There is one lemma for each combinator, so what a parser of
the grammar recognises is put together as the parser is, and it remains to see that this is the spelling of a well-formed
result.  For a whole line nothing may follow, and the two halves become one equivalence (`Grammar.run_line_eq_ok_iff`).
-/

namespace LineCheck

namespace TokenParser

variable {α β : Type} {p : TokenParser α} {ts rest : List Token} {a : α} {b : β}

/-! ### Runs that succeed -/

theorem run_bind_eq_ok_iff {f : α → TokenParser β} :
    (p >>= f).run ts = (.ok b, rest) ↔ ∃ a mid, p.run ts = (.ok a, mid) ∧ (f a).run mid = (.ok b, rest) := by
  rw [run_bind]
  rcases p.run ts with ⟨e | a, mid⟩
  · simp
  · constructor
    · exact fun h => ⟨a, mid, rfl, h⟩
    · rintro ⟨a', mid', h, h'⟩
      cases h
      exact h'

theorem run_bind_of_ok {f : α → TokenParser β} {mid : List Token} {r : Except Expected β × List Token}
    (h : p.run ts = (.ok a, mid)) (hf : (f a).run mid = r) : (p >>= f).run ts = r := by
  rw [run_bind, h]
  exact hf

theorem run_pure_eq_ok_iff {a' : α} : (pure a : TokenParser α).run ts = (.ok a', rest) ↔ a = a' ∧ ts = rest := by
  simp

theorem run_take_eq_ok_iff {wanted : Expected} {read : Token → Option α} :
    (take wanted read).run ts = (.ok a, rest) ↔ ∃ t, ts = t :: rest ∧ read t = some a := by
  cases ts with
  | nil => simp
  | cons t ts =>
    cases hread : read t with
    | none => simp [run_take_of_none hread, hread]
    | some a' =>
      rw [run_take_of_some hread]
      constructor
      · rintro h
        cases h
        exact ⟨t, rfl, hread⟩
      · rintro ⟨t', ht, hread'⟩
        cases ht
        rw [hread] at hread'
        cases hread'
        rfl

/-- The kinds of the next two tokens are those of their forms. -/
theorem map_kind_take_two (ts : List Token) :
    (ts.take 2).map Token.kind = ((ts.map Token.form).take 2).map TokenForm.kind := by
  rw [← List.map_take, List.map_map]
  rfl

/-! ### Parsers that recognise spellings -/

/-- The token behind, if there is one, has a kind that is allowed there. -/
def Follows (stop : TokenKind → Prop) (more : List TokenForm) : Prop :=
  ∀ f ∈ more.head?, stop f.kind

/-- Every kind is allowed. -/
def anyKind (_ : TokenKind) : Prop :=
  True

theorem follows_any (more : List TokenForm) : Follows anyKind more :=
  fun _ _ => trivial

/-- The parser makes a result from the tokens that spell it, and from no others. -/
structure Recognises (p : TokenParser α) (spells : α → List TokenForm → Prop) (stop : TokenKind → Prop) : Prop where
  /-- The tokens that were taken spell what was made. -/
  sound : ∀ ⦃ts a rest⦄, (∀ t ∈ ts, t.Shaped) → p.run ts = (.ok a, rest) →
    ∃ fs, spells a fs ∧ ts.map Token.form = fs ++ rest.map Token.form
  /-- What tokens spell is made of them, unless a token behind would be taken too. -/
  complete : ∀ ⦃ts a fs more⦄, spells a fs → Follows stop more → ts.map Token.form = fs ++ more →
    ∃ rest, p.run ts = (.ok a, rest) ∧ rest.map Token.form = more

/-- A good result has one spelling, and no other result has any. -/
def Spelled (good : α → Prop) (spell : α → List TokenForm) (a : α) (fs : List TokenForm) : Prop :=
  good a ∧ fs = spell a

/-- These tokens, and behind them what satisfies `spells`. -/
def Behind (front : List TokenForm) (spells : List TokenForm → Prop) (fs : List TokenForm) : Prop :=
  ∃ back, spells back ∧ fs = front ++ back

section Behind

variable {front fs : List TokenForm} {q : Prop}

@[simp] theorem behind_eq {back : List TokenForm} : Behind front (fun fs => fs = back) fs ↔ fs = front ++ back := by
  simp [Behind]

@[simp] theorem behind_and {spells : List TokenForm → Prop} :
    Behind front (fun fs => q ∧ spells fs) fs ↔ q ∧ Behind front spells fs := by
  simp [Behind, and_assoc]

@[simp] theorem behind_spelled {good : α → Prop} {spell : α → List TokenForm} :
    Behind front (Spelled good spell a) fs ↔ good a ∧ fs = front ++ spell a :=
  behind_and.trans (and_congr_right fun _ => behind_eq)

@[simp] theorem behind_exists {spells : α → List TokenForm → Prop} :
    Behind front (fun fs => ∃ a, spells a fs) fs ↔ ∃ a, Behind front (spells a) fs := by
  constructor
  · rintro ⟨back, ⟨a, hspells⟩, rfl⟩
    exact ⟨a, back, hspells, rfl⟩
  · rintro ⟨a, back, hspells, rfl⟩
    exact ⟨back, ⟨a, hspells⟩, rfl⟩

@[simp] theorem behind_or {spells spells' : List TokenForm → Prop} :
    Behind front (fun fs => spells fs ∨ spells' fs) fs ↔ Behind front spells fs ∨ Behind front spells' fs := by
  simp [Behind, or_and_right, exists_or]

end Behind

/-- What a parser leaves of shaped tokens is shaped. -/
theorem shaped_rest (hts : ∀ t ∈ ts, t.Shaped) {r : Except Expected α} (h : p.run ts = (r, rest)) :
    ∀ t ∈ rest, t.Shaped := by
  have hsuffix := p.run_suffix ts
  rw [h] at hsuffix
  exact fun t ht => hts t (hsuffix.subset ht)

/-! ### Sequence -/

theorem recognises_pure (a : α) (stop : TokenKind → Prop) :
    Recognises (pure a) (Spelled (a = ·) fun _ => []) stop where
  sound := by
    intro ts a' rest _ h
    obtain ⟨rfl, rfl⟩ := run_pure_eq_ok_iff.mp h
    exact ⟨[], ⟨rfl, rfl⟩, rfl⟩
  complete := by
    rintro ts _ _ more ⟨rfl, rfl⟩ - h
    exact ⟨ts, rfl, h⟩

namespace Recognises

variable {good : α → Prop} {spell : α → List TokenForm} {stop stop' : TokenKind → Prop} {f : α → TokenParser β}
  {spells : α → β → List TokenForm → Prop}

theorem congr {spells spells' : α → List TokenForm → Prop} (hp : Recognises p spells stop)
    (h : ∀ a fs, spells a fs ↔ spells' a fs) : Recognises p spells' stop := by
  have heq : spells = spells' := funext fun a => funext fun fs => propext (h a fs)
  rwa [← heq]

/-- Two parsers in turn, where the first one does not take what the second one may start with. -/
theorem bind (hp : Recognises p (Spelled good spell) stop) (hf : ∀ a, Recognises (f a) (spells a) stop')
    (hnext : ∀ a b fs more, spells a b fs → Follows stop' more → Follows stop (fs ++ more)) :
    Recognises (p >>= f) (fun b fs => ∃ a, good a ∧ Behind (spell a) (spells a b) fs) stop' where
  sound := by
    intro ts b rest hts h
    obtain ⟨a, mid, hrun, hmore⟩ := run_bind_eq_ok_iff.mp h
    obtain ⟨_, ⟨hgood, rfl⟩, hforms⟩ := hp.sound hts hrun
    obtain ⟨back, hspells, hforms'⟩ := (hf a).sound (shaped_rest hts hrun) hmore
    refine ⟨spell a ++ back, ⟨a, hgood, back, hspells, rfl⟩, ?_⟩
    rw [hforms, hforms', List.append_assoc]
  complete := by
    rintro ts b _ more ⟨a, hgood, back, hspells, rfl⟩ hmore h
    rw [List.append_assoc] at h
    obtain ⟨mid, hrun, hmid⟩ := hp.complete ⟨hgood, rfl⟩ (hnext a b back more hspells hmore) h
    obtain ⟨rest, hrun', hrest⟩ := (hf a).complete hspells hmore hmid
    exact ⟨rest, run_bind_of_ok hrun hrun', hrest⟩

/-- Two parsers in turn, where the first one takes as much whatever comes behind. -/
theorem seq (hp : Recognises p (Spelled good spell) anyKind) (hf : ∀ a, Recognises (f a) (spells a) stop) :
    Recognises (p >>= f) (fun b fs => ∃ a, good a ∧ Behind (spell a) (spells a b) fs) stop :=
  hp.bind hf fun _ _ _ _ _ _ => follows_any _

/-- A parser whose result becomes part of another one. -/
theorem map (hp : Recognises p (Spelled good spell) stop) (g : α → β) :
    Recognises (p >>= fun a => pure (g a)) (fun b fs => ∃ a, good a ∧ g a = b ∧ fs = spell a) stop := by
  refine (hp.bind (fun a => recognises_pure (g a) stop) ?_).congr fun b fs => by simp
  rintro a b _ more ⟨-, rfl⟩ hmore
  exact hmore

end Recognises

/-! ### Single tokens -/

/-- Any token of this kind has this form. -/
def Fixed (f : TokenForm) : Prop :=
  ∀ t : Token, t.Shaped → t.kind = f.kind → t.form = f

theorem fixed_word (k : Keyword) : Fixed (.word k) := by
  intro t ht hkind
  have htext : t.text = k.word := String.toList_injective (ht.admits hkind nofun)
  rw [Token.form, hkind, htext]
  rfl

theorem fixed_sign (s : Symbol) : Fixed (.sign s) := by
  intro t ht hkind
  have htext : t.text = s.text := String.toList_injective (ht.admits hkind nofun)
  rw [Token.form, hkind, htext]
  rfl

/-- A token that `read` makes something of, where its form is the spelling of what is made. -/
theorem recognises_take {wanted : Expected} {read : Token → Option α} {good : α → Prop} {form : α → TokenForm}
    (hread : ∀ (t : Token) a, t.Shaped → read t = some a → good a ∧ t.form = form a)
    (hmake : ∀ t a, good a → t.form = form a → read t = some a) :
    Recognises (take wanted read) (Spelled good fun a => [form a]) anyKind where
  sound := by
    intro ts a rest hts h
    obtain ⟨t, rfl, ht⟩ := run_take_eq_ok_iff.mp h
    obtain ⟨hgood, hform⟩ := hread t a (hts t List.mem_cons_self) ht
    exact ⟨[form a], ⟨hgood, rfl⟩, by rw [List.map_cons, hform]; rfl⟩
  complete := by
    rintro ts a _ more ⟨hgood, rfl⟩ - h
    cases ts with
    | nil => cases h
    | cons t ts =>
      obtain ⟨hform, hmore⟩ := List.cons.inj h
      exact ⟨ts, run_take_of_some (hmake t a hgood hform) ts, hmore⟩

theorem recognises_one {f : TokenForm} (hf : Fixed f) :
    Recognises (one f.kind) (Spelled (fun _ => True) fun _ => [f]) anyKind := by
  refine recognises_take (fun t u ht h => ⟨trivial, hf t ht ?_⟩) fun t u _ hform => ?_
  · by_contra hne
    rw [if_neg hne] at h
    cases h
  · exact if_pos (congrArg TokenForm.kind hform)

theorem recognises_word (k : Keyword) :
    Recognises (one (.keyword k)) (Spelled (fun _ => True) fun _ => [.word k]) anyKind :=
  recognises_one (fixed_word k)

theorem recognises_sign (s : Symbol) :
    Recognises (one (.symbol s)) (Spelled (fun _ => True) fun _ => [.sign s]) anyKind :=
  recognises_one (fixed_sign s)

theorem recognises_optional {f : TokenForm} (hf : Fixed f) :
    Recognises (optional f.kind) (Spelled (fun _ => True) fun b => if b then [f] else []) (· ≠ f.kind) where
  sound := by
    intro ts b rest hts h
    refine ⟨_, ⟨trivial, rfl⟩, ?_⟩
    cases ts with
    | nil => cases h; rfl
    | cons t ts =>
      simp only [optional] at h
      split at h
      · next hkind =>
        cases h
        rw [List.map_cons, hf t (hts t List.mem_cons_self) hkind]
        rfl
      · cases h
        rfl
  complete := by
    rintro ts b _ more ⟨-, rfl⟩ hstop h
    cases ts with
    | nil =>
      cases b with
      | true => cases h
      | false => exact ⟨[], rfl, h⟩
    | cons t ts =>
      cases b with
      | true =>
        obtain ⟨hform, hmore⟩ := List.cons.inj h
        have hkind : t.kind = f.kind := congrArg TokenForm.kind hform
        exact ⟨ts, by simp [optional, hkind], hmore⟩
      | false =>
        have hkind : t.kind ≠ f.kind := hstop t.form (by rw [← show (t :: ts).map Token.form = more from h]; rfl)
        exact ⟨t :: ts, by simp [optional, hkind], h⟩

/-- One of two parsers. -/
theorem recognises_ite {q : TokenParser α} {spells spells' : α → List TokenForm → Prop} {stop : TokenKind → Prop}
    {c : Bool} (hp : Recognises p spells stop) (hq : Recognises q spells' stop) :
    Recognises (if c = true then p else q) (if c = true then spells else spells') stop := by
  split
  · exact hp
  · exact hq

/-! ### Repetition -/

/-- What may follow an item: a token that joins, or what may follow the last item. -/
theorem follows_links (link : β → TokenForm) (spell : α → List TokenForm) {stop stop' : TokenKind → Prop}
    {more : List TokenForm} (hstop : ∀ b, stop (link b).kind) (hmore : Follows stop' more)
    (hweaker : ∀ k, stop' k → stop k) (links : List (β × α)) :
    Follows stop (links.flatMap (fun ba => link ba.1 :: spell ba.2) ++ more) := by
  intro f hf
  cases links with
  | nil => exact hweaker f.kind (hmore f hf)
  | cons ba links => cases hf; exact hstop ba.1

/-- Where the next token joins, what it joins with is taken, and an item behind it. -/
theorem linksFrom_cons {join : TokenKind → Option β} {item : TokenParser α} {t : Token} {mid : List Token}
    {links : List (β × α)} (hjoin : join t.kind = some b) (hitem : item.run ts = (.ok a, mid))
    (hmore : linksFrom join item mid = (.ok links, rest)) :
    linksFrom join item (t :: ts) = (.ok ((b, a) :: links), rest) := by
  unfold linksFrom
  simp only [hjoin]
  split
  · next hrun => rw [hitem] at hrun; cases hrun
  · next hrun =>
    rw [hitem] at hrun
    cases hrun
    simp only [hmore]

/-- Items each behind a token that joins them, as long as a token joins. -/
theorem recognises_links {join : TokenKind → Option β} {item : TokenParser α} {link : β → TokenForm}
    {good : α → Prop} {spell : α → List TokenForm} {stop : TokenKind → Prop}
    (hjoin : ∀ (t : Token) b, t.Shaped → join t.kind = some b → t.form = link b) (hlink : ∀ b, join (link b).kind = some b)
    (hitem : Recognises item (Spelled good spell) stop) (hstop : ∀ b, stop (link b).kind) :
    Recognises (links join item)
      (Spelled (fun more => ∀ ba ∈ more, good ba.2) fun more => more.flatMap fun ba => link ba.1 :: spell ba.2)
      (fun k => join k = none ∧ stop k) where
  sound := by
    intro ts
    show ∀ as rest, _ → linksFrom join item ts = (.ok as, rest) → _
    fun_induction linksFrom join item ts with
    | case1 => rintro as rest - h; cases h; exact ⟨[], ⟨fun ba hba => absurd hba List.not_mem_nil, rfl⟩, rfl⟩
    | case2 t ts hnone => rintro as rest - h; cases h; exact ⟨[], ⟨fun ba hba => absurd hba List.not_mem_nil, rfl⟩, rfl⟩
    | case3 t ts b hb e mid hrun => rintro as rest - h; cases h
    | case4 t ts b hb a mid hrun e last hmore ih => rintro as rest - h; cases h
    | case5 t ts b hb a mid hrun more last hmore ih =>
      rintro as rest hts h
      cases h
      have hts' : ∀ u ∈ ts, u.Shaped := fun u hu => hts u (List.mem_cons_of_mem t hu)
      obtain ⟨_, ⟨hgood, rfl⟩, hforms⟩ := hitem.sound hts' hrun
      obtain ⟨_, ⟨hgoods, rfl⟩, hmores⟩ := ih more last (shaped_rest hts' hrun) hmore
      refine ⟨_, ⟨List.forall_mem_cons.mpr ⟨hgood, hgoods⟩, rfl⟩, ?_⟩
      rw [List.map_cons, hforms, hmores, hjoin t b (hts t List.mem_cons_self) hb]
      simp
  complete := by
    rintro ts as _ more ⟨hgood, rfl⟩ hmore h
    induction as generalizing ts with
    | nil =>
      cases ts with
      | nil => exact ⟨[], by simp [links, linksFrom], h⟩
      | cons t ts =>
        -- the token behind does not join
        have hnone : join t.kind = none :=
          (hmore t.form (by rw [← show (t :: ts).map Token.form = more from h]; rfl)).1
        refine ⟨t :: ts, ?_, h⟩
        show linksFrom join item (t :: ts) = _
        unfold linksFrom
        rw [hnone]
    | cons ba as ih =>
      obtain ⟨hgood, hgoods⟩ := List.forall_mem_cons.mp hgood
      cases ts with
      | nil => cases h
      | cons t ts =>
        obtain ⟨hform, htail⟩ := List.cons.inj h
        have hb : join t.kind = some ba.1 := by
          rw [show t.kind = (link ba.1).kind from congrArg TokenForm.kind hform, hlink]
        have hnext : Follows stop (as.flatMap (fun ba => link ba.1 :: spell ba.2) ++ more) :=
          follows_links link spell hstop hmore (fun _ hk => hk.2) as
        have hitems : ts.map Token.form = spell ba.2 ++ (as.flatMap (fun ba => link ba.1 :: spell ba.2) ++ more) := by
          rw [← List.append_assoc]
          exact htail
        obtain ⟨mid, hrun, hmid⟩ := hitem.complete ⟨hgood, rfl⟩ hnext hitems
        obtain ⟨rest, hlinks, hrest⟩ := ih hgoods hmid
        exact ⟨rest, linksFrom_cons hb hrun hlinks, hrest⟩

theorem form_of_comma (t : Token) (u : Unit) (ht : t.Shaped) (hu : comma t.kind = some u) : t.form = .sign .comma := by
  unfold comma at hu
  split at hu
  · next hkind => exact fixed_sign .comma t ht hkind
  · cases hu

theorem recognises_commas {item : TokenParser α} {good : α → Prop} {spell : α → List TokenForm}
    {stop : TokenKind → Prop} (hitem : Recognises item (Spelled good spell) stop) (hstop : stop (.symbol .comma)) :
    Recognises (links comma item)
      (Spelled (fun more => ∀ ba ∈ more, good ba.2) fun more => more.flatMap fun ba => .sign .comma :: spell ba.2)
      (fun k => comma k = none ∧ stop k) :=
  recognises_links form_of_comma (fun _ => rfl) hitem fun _ => hstop

theorem recognises_commaList {item : TokenParser α} {good : α → Prop} {spell : α → List TokenForm}
    {stop : TokenKind → Prop} (hitem : Recognises item (Spelled good spell) stop) (hstop : stop (.symbol .comma)) :
    Recognises (commaList item) (Spelled (fun as => as ≠ [] ∧ ∀ a ∈ as, good a) (commaSpelling spell))
      (fun k => comma k = none ∧ stop k) := by
  refine (hitem.bind (fun first => (recognises_commas hitem hstop).bind
    (fun more => recognises_pure (first :: more.map Prod.snd) _) ?_) ?_).congr fun as fs => ?_
  · rintro more as _ behind ⟨-, rfl⟩ hbehind
    exact hbehind
  · rintro first as _ behind ⟨more, -, _, ⟨-, rfl⟩, rfl⟩ hbehind
    rw [List.append_nil]
    exact follows_links (fun _ => .sign .comma) spell (fun _ => hstop) hbehind (fun _ hk => hk.2) more
  · simp only [behind_exists, behind_and, behind_spelled, behind_eq, List.append_nil]
    constructor
    · rintro ⟨first, hfirst, more, hmore, rfl, rfl⟩
      refine ⟨⟨List.cons_ne_nil _ _, List.forall_mem_cons.mpr ⟨hfirst, List.forall_mem_map.mpr hmore⟩⟩, ?_⟩
      rw [commaSpelling, List.flatMap_map]
    · rintro ⟨⟨hne, hgood⟩, rfl⟩
      obtain ⟨first, more, rfl⟩ := List.exists_cons_of_ne_nil hne
      obtain ⟨hfirst, hmore⟩ := List.forall_mem_cons.mp hgood
      refine ⟨first, hfirst, more.map fun a => ((), a), List.forall_mem_map.mpr hmore, ?_, ?_⟩
      · rw [List.map_map]
        exact congrArg (first :: ·) (List.map_id more)
      · rw [commaSpelling, List.flatMap_map]

end TokenParser

/-! ### The parts of a line -/

namespace Grammar

open TokenParser

theorem recognises_type : Recognises type (Spelled (fun _ => True) fun ty => [.word (.type ty)]) anyKind := by
  refine recognises_take (fun t ty ht h => ⟨trivial, ?_⟩) fun t ty _ hform => ?_
  · unfold TokenKind.type? at h
    split at h
    · next hkind => cases h; exact fixed_word _ t ht hkind
    · cases h
  · rw [show t.kind = .keyword (.type ty) from congrArg TokenForm.kind hform]
    rfl

theorem recognises_variableName : Recognises variableName (Spelled VariableName fun x => [.name x]) anyKind := by
  refine recognises_take (fun t x ht h => ?_) fun t x hx hform => ?_
  · unfold Token.variableName? at h
    split at h
    · next hname =>
      cases h
      exact ⟨variableName_of_isVariableName (ht.admits hname.1 nofun) hname.2, by rw [Token.form, hname.1]; rfl⟩
    · cases h
  · obtain ⟨hkind, rfl⟩ : t.kind = .identifier ∧ t.text = x := TokenForm.mk.inj hform
    exact if_pos ⟨hkind, hx.isVariableName⟩

theorem recognises_functionName : Recognises functionName (Spelled FunctionName fun f => [.name f]) anyKind := by
  refine recognises_take (fun t f ht h => ?_) fun t f hf hform => ?_
  · unfold Token.functionName? at h
    split at h
    · next hname =>
      cases h
      exact ⟨functionName_of_isFunctionName (ht.admits hname.1 nofun) hname.2, by rw [Token.form, hname.1]; rfl⟩
    · cases h
  · obtain ⟨hkind, rfl⟩ : t.kind = .identifier ∧ t.text = f := TokenForm.mk.inj hform
    exact if_pos ⟨hkind, hf.isFunctionName⟩

theorem recognises_value : Recognises value (Spelled Value.WellFormed fun v => [v.form]) anyKind := by
  refine recognises_take (fun t v ht h => ?_) fun t v hv hform => ?_
  · have hliteral : ∀ kind, t.kind = kind → t.form = ⟨kind, t.text⟩ := fun kind hkind => by rw [Token.form, hkind]
    unfold Token.value? at h
    split at h
    case h_1 hkind => cases h; exact ⟨trivial, hliteral _ hkind⟩
    case h_2 hkind => cases h; exact ⟨trivial, hliteral _ hkind⟩
    case h_3 b hkind => cases h; exact ⟨trivial, (fixed_word _ t ht hkind).trans (Value.form_boolean b).symm⟩
    case h_4 hkind => cases h; exact ⟨trivial, hliteral _ hkind⟩
    case h_5 hkind => cases h; exact ⟨trivial, hliteral _ hkind⟩
    case h_6 hkind =>
      split at h
      · next hname =>
        cases h
        exact ⟨variableName_of_isVariableName (ht.admits hkind nofun) hname, hliteral _ hkind⟩
      · cases h
    case h_7 => cases h
  · obtain ⟨hkind, htext⟩ : t.kind = v.tokenKind ∧ t.text = v.text := TokenForm.mk.inj hform
    unfold Token.value?
    rw [hkind, htext]
    cases v with
    | literal l => cases l <;> rfl
    | name x => exact if_pos (VariableName.isVariableName hv)

/-- The first of the coming tokens, where the spelling starts with a token. -/
theorem upcoming_of_forms {ts : List Token} {f : TokenForm} {fs : List TokenForm} (h : ts.map Token.form = f :: fs) :
    (ts.take 2).map Token.kind = f.kind :: (fs.take 1).map TokenForm.kind := by
  rw [map_kind_take_two, h]
  rfl

/-- A look at the coming tokens, where the spelling starts with a token. -/
theorem run_upcoming_bind {α : Type} {p : List TokenKind → TokenParser α} {ts : List Token} {f : TokenForm}
    {fs : List TokenForm} {r : Except Expected α × List Token} (h : ts.map Token.form = f :: fs)
    (hrun : (p (f.kind :: (fs.take 1).map TokenForm.kind)).run ts = r) : (upcoming >>= p).run ts = r := by
  rw [← upcoming_of_forms h] at hrun
  exact run_bind_of_ok (run_upcoming ts) hrun

theorem recognises_operand : Recognises operand (Spelled Value.IsOperand fun v => [v.form]) anyKind where
  sound := by
    intro ts v rest hts h
    obtain ⟨next, mid, hnext, h⟩ := run_bind_eq_ok_iff.mp h
    cases hnext
    split at h
    · cases h
    · cases h
    · next hstring hchar =>
      obtain ⟨_, ⟨hv, rfl⟩, hforms⟩ := recognises_value.sound hts h
      have hkinds := upcoming_of_forms hforms
      refine ⟨[v.form], ⟨⟨hv, fun raw => ⟨?_, ?_⟩⟩, rfl⟩, hforms⟩
      · rintro rfl
        exact hstring _ hkinds
      · rintro rfl
        exact hchar _ hkinds
  complete := by
    rintro ts v _ more ⟨⟨hv, hunquoted⟩, rfl⟩ hmore h
    obtain ⟨rest, hrun, hrest⟩ := recognises_value.complete ⟨hv, rfl⟩ hmore h
    refine ⟨rest, run_upcoming_bind h ?_, hrest⟩
    rcases v with (raw | raw | b | raw | raw) | x
    case literal.char => exact absurd rfl (hunquoted raw).2
    case literal.string => exact absurd rfl (hunquoted raw).1
    all_goals exact hrun

theorem recognises_final :
    Recognises (optional (.keyword .final)) (Spelled (fun _ => True) finalSpelling) (· ≠ .keyword .final) :=
  recognises_optional (fixed_word .final)

theorem recognises_declarator (isFinal : Bool) :
    Recognises (declarator isFinal) (Spelled (Declarator.WellFormed isFinal) Declarator.spelling)
      (· ≠ .symbol .assign) := by
  have hvalue : ∀ x, Recognises (value >>= fun v => pure (Declarator.mk x (some v))) _ (· ≠ .symbol .assign) :=
    fun x => recognises_value.seq fun v => recognises_pure (Declarator.mk x (some v)) _
  cases isFinal with
  | true =>
    refine (recognises_variableName.seq fun x => (recognises_sign .assign).seq fun _ => hvalue x).congr fun d fs => ?_
    simp only [behind_exists, behind_and, behind_eq, behind_spelled, exists_const, true_and]
    constructor
    · rintro ⟨x, hx, v, hv, rfl, rfl⟩
      exact ⟨⟨hx, fun w hw => by cases hw; exact hv, fun _ => rfl⟩, rfl⟩
    · obtain ⟨x, init⟩ := d
      rintro ⟨⟨hx, hinit, hsome⟩, rfl⟩
      obtain ⟨v, rfl⟩ := Option.isSome_iff_exists.mp (hsome rfl)
      exact ⟨x, hx, v, hinit v rfl, rfl, rfl⟩
  | false =>
    refine (recognises_variableName.seq fun x => (recognises_optional (fixed_sign .assign)).bind
      (fun given => recognises_ite (hvalue x) (recognises_pure (Declarator.mk x none) _)) ?_).congr fun d fs => ?_
    · rintro (_ | _) d fs more hspells hmore
      · obtain ⟨-, rfl⟩ := hspells
        exact hmore
      · obtain ⟨v, -, _, -, rfl⟩ := hspells
        rintro f ⟨⟩
        exact v.tokenKind_ne_symbol .assign
    · simp only [behind_exists, behind_or, behind_and, behind_eq, behind_spelled, true_and, Bool.exists_bool, if_true,
        if_false, Bool.false_eq_true]
      constructor
      · rintro ⟨x, hx, ⟨rfl, rfl⟩ | ⟨v, hv, rfl, rfl⟩⟩
        · exact ⟨⟨hx, nofun, nofun⟩, rfl⟩
        · exact ⟨⟨hx, fun w hw => by cases hw; exact hv, nofun⟩, rfl⟩
      · obtain ⟨x, init⟩ := d
        rintro ⟨⟨hx, hinit, -⟩, rfl⟩
        cases init with
        | none => exact ⟨x, hx, .inl ⟨rfl, rfl⟩⟩
        | some v => exact ⟨x, hx, .inr ⟨v, hinit v rfl, rfl, rfl⟩⟩

theorem recognises_assignment :
    Recognises assignment (Spelled Assignment.WellFormed Assignment.spelling) anyKind := by
  refine (recognises_variableName.seq fun x => (recognises_sign .assign).seq fun _ =>
    recognises_value.map (Assignment.mk x)).congr fun a fs => ?_
  simp only [behind_exists, behind_and, behind_eq, exists_const, true_and]
  constructor
  · rintro ⟨x, hx, v, hv, rfl, rfl⟩
    exact ⟨⟨hx, hv⟩, rfl⟩
  · rintro ⟨⟨hx, hv⟩, rfl⟩
    exact ⟨a.name, hx, a.value, hv, rfl, rfl⟩

theorem recognises_param :
    Recognises param (Spelled (fun p => VariableName p.name) Param.spelling) anyKind := by
  refine (recognises_final.bind (fun isFinal => recognises_type.seq fun ty =>
    recognises_variableName.map (Param.mk · ty isFinal)) ?_).congr fun p fs => ?_
  · rintro isFinal p _ more ⟨ty, -, _, -, rfl⟩ - f hf
    cases hf
    exact nofun
  · simp only [behind_exists, behind_and, behind_eq, true_and]
    constructor
    · rintro ⟨isFinal, ty, x, hx, rfl, rfl⟩
      exact ⟨hx, rfl⟩
    · rintro ⟨hx, rfl⟩
      exact ⟨p.isFinal, p.ty, p.name, hx, rfl, rfl⟩

/-- Items in parentheses, where no item starts with a closing parenthesis. -/
theorem recognises_parenthesised {α : Type} {item : TokenParser α} {good : α → Prop} {spell : α → List TokenForm}
    (hitem : Recognises item (Spelled good spell) anyKind)
    (hhead : ∀ a, ∃ f fs, spell a = f :: fs ∧ f.kind ≠ .symbol .rightParen) :
    Recognises (parenthesised item) (Spelled (fun as => ∀ a ∈ as, good a) (parenthesisedSpelling spell)) anyKind := by
  have hclose : ∀ as : List α, Recognises (one (.symbol .rightParen) >>= fun _ => pure as) _ anyKind :=
    fun as => (recognises_sign .rightParen).map fun _ => as
  have hitems := (recognises_commaList hitem trivial).bind hclose (by
    rintro as _ _ more ⟨-, -, -, rfl⟩ - f ⟨⟩
    exact ⟨rfl, trivial⟩)
  refine ((recognises_sign .leftParen).seq fun _ => (?_ : Recognises _ (Spelled (fun as => ∀ a ∈ as, good a)
    fun as => commaSpelling spell as ++ [.sign .rightParen]) anyKind)).congr fun as fs => ?_
  · constructor
    · intro ts as rest hts h
      obtain ⟨next, mid, hnext, h⟩ := run_bind_eq_ok_iff.mp h
      cases hnext
      split at h
      · obtain ⟨_, ⟨-, -, rfl, rfl⟩, hforms⟩ := (hclose []).sound hts h
        exact ⟨_, ⟨nofun, rfl⟩, hforms⟩
      · obtain ⟨_, ⟨as', ⟨-, hgood⟩, _, ⟨-, -, rfl, rfl⟩, rfl⟩, hforms⟩ := hitems.sound hts h
        exact ⟨_, ⟨hgood, rfl⟩, hforms⟩
    · rintro ts as _ more ⟨hgood, rfl⟩ hmore h
      cases as with
      | nil =>
        obtain ⟨rest, hrun, hrest⟩ := (hclose []).complete ⟨(), trivial, rfl, rfl⟩ hmore h
        exact ⟨rest, run_upcoming_bind h hrun, hrest⟩
      | cons a as =>
        obtain ⟨rest, hrun, hrest⟩ := hitems.complete
          ⟨a :: as, ⟨List.cons_ne_nil a as, hgood⟩, _, ⟨(), trivial, rfl, rfl⟩, rfl⟩ hmore h
        refine ⟨rest, run_bind_of_ok (run_upcoming ts) ?_, hrest⟩
        obtain ⟨f, fs, hf, hkind⟩ := hhead a
        have h : ts.map Token.form = commaSpelling spell (a :: as) ++ [.sign .rightParen] ++ more := h
        rw [commaSpelling, hf] at h
        split
        · next tail htail =>
          rw [upcoming_of_forms h] at htail
          exact absurd (List.cons.inj htail).1 hkind
        · exact hrun
  · simp only [behind_spelled, exists_const, true_and]
    exact Iff.rfl

/-! ### Whole lines -/

theorem recognises_declaration :
    Recognises declaration (Spelled (fun d => d.declarators ≠ [] ∧ ∀ x ∈ d.declarators, x.WellFormed d.isFinal)
      Declaration.spelling) anyKind := by
  refine (recognises_final.bind (fun isFinal => recognises_type.seq fun ty =>
    (recognises_commaList (recognises_declarator isFinal) nofun).bind
      (fun ds => (recognises_sign .semicolon).map fun _ => Declaration.mk isFinal ty ds) ?_) ?_).congr fun d fs => ?_
  · rintro ds _ _ more ⟨-, -, -, rfl⟩ - f ⟨⟩
    exact ⟨rfl, nofun⟩
  · rintro isFinal _ _ more ⟨ty, -, _, -, rfl⟩ - f ⟨⟩
    exact nofun
  · simp only [behind_exists, behind_and, behind_eq, exists_const, true_and]
    constructor
    · rintro ⟨isFinal, ty, ds, hds, rfl, rfl⟩
      exact ⟨hds, rfl⟩
    · rintro ⟨hds, rfl⟩
      exact ⟨d.isFinal, d.ty, d.declarators, hds, rfl, rfl⟩

theorem recognises_assignments :
    Recognises assignments (Spelled (fun as => as ≠ [] ∧ ∀ a ∈ as, a.WellFormed)
      fun as => commaSpelling Assignment.spelling as ++ [.sign .semicolon]) anyKind := by
  refine ((recognises_commaList recognises_assignment trivial).bind
    (fun as => (recognises_sign .semicolon).map fun _ => as) ?_).congr fun as fs => ?_
  · rintro as _ _ more ⟨-, -, -, rfl⟩ - f ⟨⟩
    exact ⟨rfl, trivial⟩
  · simp only [behind_and, behind_eq, exists_const, true_and]
    constructor
    · rintro ⟨as, has, rfl, rfl⟩
      exact ⟨has, rfl⟩
    · rintro ⟨has, rfl⟩
      exact ⟨as, has, rfl, rfl⟩

theorem recognises_params :
    Recognises (parenthesised param)
      (Spelled (fun ps => ∀ p ∈ ps, VariableName p.name) (parenthesisedSpelling Param.spelling)) anyKind := by
  refine recognises_parenthesised recognises_param fun p => ?_
  obtain ⟨x, ty, isFinal⟩ := p
  cases isFinal
  · exact ⟨_, _, rfl, nofun⟩
  · exact ⟨_, _, rfl, nofun⟩

theorem recognises_args :
    Recognises (parenthesised value)
      (Spelled (fun vs => ∀ v ∈ vs, v.WellFormed) (parenthesisedSpelling fun v => [v.form])) anyKind :=
  recognises_parenthesised recognises_value fun v => ⟨v.form, [], rfl, v.tokenKind_ne_symbol .rightParen⟩

theorem recognises_header :
    Recognises header (Spelled (fun h => FunctionName h.name ∧ ∀ p ∈ h.params, VariableName p.name) Header.spelling)
      anyKind := by
  refine ((recognises_word .void).seq fun _ => recognises_functionName.seq fun f => recognises_params.seq fun ps =>
    (recognises_sign .leftBrace).map fun _ => Header.mk f ps).congr fun h fs => ?_
  simp only [behind_exists, behind_and, behind_eq, exists_const, true_and]
  constructor
  · rintro ⟨f, hf, ps, hps, rfl, rfl⟩
    exact ⟨⟨hf, hps⟩, rfl⟩
  · rintro ⟨⟨hf, hps⟩, rfl⟩
    exact ⟨h.name, hf, h.params, hps, rfl, rfl⟩

theorem recognises_call :
    Recognises call (Spelled (fun c => FunctionName c.name ∧ ∀ v ∈ c.args, v.WellFormed) Call.spelling) anyKind := by
  refine (recognises_functionName.seq fun f => recognises_args.seq fun vs =>
    (recognises_sign .semicolon).map fun _ => Call.mk f vs).congr fun c fs => ?_
  simp only [behind_exists, behind_and, behind_eq, exists_const, true_and]
  constructor
  · rintro ⟨f, hf, vs, hvs, rfl, rfl⟩
    exact ⟨⟨hf, hvs⟩, rfl⟩
  · rintro ⟨⟨hf, hvs⟩, rfl⟩
    exact ⟨c.name, hf, c.args, hvs, rfl, rfl⟩

theorem form_of_connective (t : Token) (c : Connective) (ht : t.Shaped) (hc : Connective.ofKind? t.kind = some c) :
    t.form = .sign c.symbol := by
  unfold Connective.ofKind? at hc
  split at hc
  · next hkind => cases hc; exact fixed_sign .and t ht hkind
  · next hkind => cases hc; exact fixed_sign .or t ht hkind
  · cases hc

/-- Operands each behind a connective. -/
theorem recognises_connected :
    Recognises (links Connective.ofKind? operand)
      (Spelled (fun more => ∀ link ∈ more, link.2.IsOperand)
        fun more => more.flatMap fun link => [.sign link.1.symbol, link.2.form])
      (fun k => Connective.ofKind? k = none ∧ anyKind k) := by
  have hlink : ∀ c : Connective, Connective.ofKind? (.symbol c.symbol) = some c := by
    intro c
    cases c <;> rfl
  exact recognises_links form_of_connective hlink recognises_operand fun _ => trivial

theorem recognises_condition :
    Recognises condition (Spelled (fun c => ∀ v ∈ c.operands, v.IsOperand) Condition.spelling) anyKind := by
  refine ((recognises_sign .leftParen).seq fun _ => recognises_operand.seq fun first => recognises_connected.bind
    (fun links => (recognises_sign .rightParen).seq fun _ =>
      (recognises_sign .leftBrace).map fun _ => Condition.mk first links) ?_).congr fun c fs => ?_
  · rintro links _ _ more ⟨-, -, _, -, rfl⟩ - f ⟨⟩
    exact ⟨rfl, trivial⟩
  · simp only [behind_exists, behind_and, behind_eq, exists_const, true_and]
    constructor
    · rintro ⟨first, hfirst, links, hlinks, rfl, rfl⟩
      exact ⟨List.forall_mem_cons.mpr ⟨hfirst, List.forall_mem_map.mpr hlinks⟩, rfl⟩
    · rintro ⟨hoperands, rfl⟩
      obtain ⟨hfirst, hlinks⟩ := List.forall_mem_cons.mp hoperands
      exact ⟨c.first, hfirst, c.rest, List.forall_mem_map.mp hlinks, rfl, rfl⟩

/-- The first two tokens tell which parser is right for the statement. -/
theorem recognises_statement : Recognises statement (Spelled Statement.WellFormed Statement.spelling) anyKind := by
  have hdeclaration := recognises_declaration.map Statement.declaration
  have hassignment := recognises_assignments.map Statement.assignment
  have hheader := recognises_header.map Statement.function
  have hcall := recognises_call.map Statement.call
  have hguard := fun w => (recognises_word (.guard w)).seq fun _ => recognises_condition.map (Statement.guard w)
  have hreturn := (recognises_word .return).seq fun _ => (recognises_sign .semicolon).map fun _ => Statement.return
  have hclose := (recognises_sign .rightBrace).map fun _ => Statement.closeBrace
  constructor
  · intro ts s rest hts h
    obtain ⟨next, mid, hnext, h⟩ := run_bind_eq_ok_iff.mp h
    cases hnext
    split at h
    · obtain ⟨_, ⟨d, hgood, rfl, rfl⟩, hforms⟩ := hdeclaration.sound hts h
      exact ⟨_, ⟨hgood, rfl⟩, hforms⟩
    · obtain ⟨_, ⟨d, hgood, rfl, rfl⟩, hforms⟩ := hdeclaration.sound hts h
      exact ⟨_, ⟨hgood, rfl⟩, hforms⟩
    · obtain ⟨_, ⟨f, hgood, rfl, rfl⟩, hforms⟩ := hheader.sound hts h
      exact ⟨_, ⟨hgood, rfl⟩, hforms⟩
    · next w _ _ =>
      obtain ⟨_, ⟨-, -, _, ⟨c, hgood, rfl, rfl⟩, rfl⟩, hforms⟩ := (hguard w).sound hts h
      exact ⟨_, ⟨hgood, rfl⟩, hforms⟩
    · obtain ⟨_, ⟨-, -, _, ⟨-, -, rfl, rfl⟩, rfl⟩, hforms⟩ := hreturn.sound hts h
      exact ⟨_, ⟨trivial, rfl⟩, hforms⟩
    · obtain ⟨_, ⟨-, -, rfl, rfl⟩, hforms⟩ := hclose.sound hts h
      exact ⟨_, ⟨trivial, rfl⟩, hforms⟩
    · obtain ⟨_, ⟨c, hgood, rfl, rfl⟩, hforms⟩ := hcall.sound hts h
      exact ⟨_, ⟨hgood, rfl⟩, hforms⟩
    · obtain ⟨_, ⟨as, hgood, rfl, rfl⟩, hforms⟩ := hassignment.sound hts h
      exact ⟨_, ⟨hgood, rfl⟩, hforms⟩
    · cases h
  · rintro ts s _ more ⟨hs, rfl⟩ hmore h
    cases s with
    | blank => exact hs.elim
    | comment => exact hs.elim
    | declaration d =>
      obtain ⟨rest, hrun, hrest⟩ := hdeclaration.complete ⟨d, hs, rfl, rfl⟩ hmore h
      obtain ⟨isFinal, ty, ds⟩ := d
      cases isFinal
      · exact ⟨rest, run_upcoming_bind h hrun, hrest⟩
      · exact ⟨rest, run_upcoming_bind h hrun, hrest⟩
    | assignment as =>
      obtain ⟨rest, hrun, hrest⟩ := hassignment.complete ⟨as, hs, rfl, rfl⟩ hmore h
      cases as with
      | nil => exact absurd rfl hs.1
      | cons a as => exact ⟨rest, run_upcoming_bind h hrun, hrest⟩
    | function f =>
      obtain ⟨rest, hrun, hrest⟩ := hheader.complete ⟨f, hs, rfl, rfl⟩ hmore h
      exact ⟨rest, run_upcoming_bind h hrun, hrest⟩
    | call c =>
      obtain ⟨rest, hrun, hrest⟩ := hcall.complete ⟨c, hs, rfl, rfl⟩ hmore h
      exact ⟨rest, run_upcoming_bind h hrun, hrest⟩
    | guard w c =>
      obtain ⟨rest, hrun, hrest⟩ := (hguard w).complete ⟨(), trivial, _, ⟨c, hs, rfl, rfl⟩, rfl⟩ hmore h
      exact ⟨rest, run_upcoming_bind h hrun, hrest⟩
    | «return» =>
      obtain ⟨rest, hrun, hrest⟩ := hreturn.complete ⟨(), trivial, _, ⟨(), trivial, rfl, rfl⟩, rfl⟩ hmore h
      exact ⟨rest, run_upcoming_bind h hrun, hrest⟩
    | closeBrace =>
      obtain ⟨rest, hrun, hrest⟩ := hclose.complete ⟨(), trivial, rfl, rfl⟩ hmore h
      exact ⟨rest, run_upcoming_bind h hrun, hrest⟩

/-- A line makes a statement if and only if the statement is well formed and the tokens of the line are its spelling. -/
theorem run_line_eq_ok_iff {ts : List Token} (hts : ∀ t ∈ ts, t.Shaped) {s : Statement} :
    (line.run ts).1 = .ok s ↔ s.WellFormed ∧ ts.map Token.form = s.spelling := by
  constructor
  · intro h
    have hline : line.run ts = (.ok s, (line.run ts).2) := by rw [← h]
    obtain ⟨s', mid, hs, hline⟩ := run_bind_eq_ok_iff.mp hline
    obtain ⟨u, mid', hend, hline⟩ := run_bind_eq_ok_iff.mp hline
    obtain ⟨rfl, -⟩ := run_pure_eq_ok_iff.mp hline
    have hmid : mid = [] := by
      cases mid with
      | nil => rfl
      | cons t mid => cases hend
    obtain ⟨_, ⟨hgood, rfl⟩, hforms⟩ := recognises_statement.sound hts hs
    rw [hmid, List.map_nil, List.append_nil] at hforms
    exact ⟨hgood, hforms⟩
  · rintro ⟨hgood, hforms⟩
    rw [← List.append_nil s.spelling] at hforms
    obtain ⟨rest, hrun, hrest⟩ := recognises_statement.complete ⟨hgood, rfl⟩ (follows_any _) hforms
    cases List.map_eq_nil_iff.mp hrest
    have hline : line.run ts = (.ok s, []) := run_bind_of_ok hrun (run_bind_of_ok rfl rfl)
    rw [hline]

end Grammar
end LineCheck
