import LineCheck.Proofs.Symbol.Env

/-!
# LineCheck.Proofs.Symbol.Ease — environments that allow more

A variable that is not final, or that has a value, allows everything that it allows while it is final, or has none
(`Standing.Eases`).  Nested scopes extend others if they have the same names, with entries that are related, and the
outermost one perhaps some new names besides (`Layers.Extends`).  The scopes inside it have to agree exactly, for a name
that is new in one of them has to be new in the other; so the relation counts them, and opening and closing a scope
counts up and down.  What fits in an environment fits in every one that extends it, and assignments can be made there
too (`Assigns.exists_of_extends`).
-/

namespace LineCheck

/-- The second variable allows whatever the first one allows: the types are the same, it may be changed where the other
may, and it has a value where the other has. -/
structure Standing.Eases (st st' : Standing) : Prop where
  ty : st'.ty = st.ty
  isFinal : st'.isFinal = true → st.isFinal = true
  isAssigned : st.isAssigned = true → st'.isAssigned = true

namespace Standing

variable {st st' : Standing}

theorem Eases.refl (st : Standing) : st.Eases st :=
  ⟨rfl, id, id⟩

theorem Eases.assign (h : st.Eases st') : st.assign.Eases st'.assign :=
  ⟨h.ty, h.isFinal, fun _ => rfl⟩

theorem Eases.changeable (h : st.Eases st') (hopen : st.isFinal = false) : st'.isFinal = false := by
  cases hfinal : st'.isFinal with
  | false => rfl
  | true => exact (h.isFinal hfinal).symm.trans hopen

end Standing

namespace Layers

section Extends

variable {α β : Type} {R : α → β → Prop} {extra : List String} {k : Nat} {s : Layers α} {t : Layers β}

/-- Two scopes have the same names, with related entries, but the second one may also have some of the extra names. -/
def ScopeExtends (R : α → β → Prop) (extra : List String) (f : String → Option α) (g : String → Option β) : Prop :=
  ∀ name, Option.Rel R (f name) (g name) ∨ f name = none ∧ name ∈ extra

/-- Scopes, the innermost first, that have the same names with related entries, but for extra names in the outermost
one; inside that there are `k` others. -/
inductive FramesExtend (R : α → β → Prop) (extra : List String) :
    Nat → List (String → Option α) → List (String → Option β) → Prop where
  | outermost {f : String → Option α} {g : String → Option β} (only : ScopeExtends R extra f g) :
      FramesExtend R extra 0 [f] [g]
  | inside {k : Nat} {f : String → Option α} {g : String → Option β} {fs : List (String → Option α)}
      {gs : List (String → Option β)} (first : ScopeRel R f g) (more : FramesExtend R extra k fs gs) :
      FramesExtend R extra (k + 1) (f :: fs) (g :: gs)

/-- The layers have the same names with related entries, but for extra names in the outermost scope of the second;
inside that scope there are `k` others. -/
def Extends (R : α → β → Prop) (extra : List String) (k : Nat) (s : Layers α) (t : Layers β) : Prop :=
  FramesExtend R extra k (s.inner :: s.outer) (t.inner :: t.outer)

theorem ScopeExtends.exists_of_some {f : String → Option α} {g : String → Option β} (h : ScopeExtends R extra f g)
    {name : String} {a : α} (ha : f name = some a) : ∃ b, g name = some b ∧ R a b := by
  obtain hrel | ⟨hnone, -⟩ := h name
  · obtain ⟨hnone, -⟩ | ⟨a', b, ha', hb, hab⟩ := none_or_some_of_rel hrel
    · exact absurd (hnone.symm.trans ha) (by simp)
    · obtain rfl := Option.some.inj (ha'.symm.trans ha)
      exact ⟨b, hb, hab⟩
  · exact absurd (hnone.symm.trans ha) (by simp)

theorem ScopeExtends.update {f : String → Option α} {g : String → Option β} (h : ScopeExtends R extra f g) {a : α}
    {b : β} (hab : R a b) (name : String) :
    ScopeExtends R extra (Function.update f name (some a)) (Function.update g name (some b)) := by
  intro other
  by_cases ho : other = name
  · subst ho
    exact .inl (by simpa using hab)
  · simpa [Function.update_of_ne ho] using h other

theorem FramesExtend.exists_of_some {fs : List (String → Option α)} {gs : List (String → Option β)}
    (h : FramesExtend R extra k fs gs) {name : String} {a : α} (ha : fs.findSome? (· name) = some a) :
    ∃ b, gs.findSome? (· name) = some b ∧ R a b := by
  induction h with
  | @outermost f g only =>
    have hf : f name = some a := by simpa using ha
    obtain ⟨b, hb, hab⟩ := only.exists_of_some hf
    exact ⟨b, by simp [hb], hab⟩
  | @inside k f g fs gs first _ ih =>
    obtain ⟨hf, hg⟩ | ⟨a', b, hf, hg, hab⟩ := none_or_some_of_rel (first name)
    · obtain ⟨b, hb, hab⟩ := ih (by simpa [hf] using ha)
      exact ⟨b, by simpa [hg] using hb, hab⟩
    · obtain rfl : a' = a := by simpa [hf] using ha
      exact ⟨b, by simp [hg], hab⟩

theorem FramesExtend.modifyIn {fs : List (String → Option α)} {gs : List (String → Option β)}
    (h : FramesExtend R extra k fs gs) {f : α → α} {g : β → β} (hfg : ∀ a b, R a b → R (f a) (g b)) (name : String) :
    FramesExtend R extra k (modifyIn name f fs) (modifyIn name g gs) := by
  induction h with
  | @outermost u v only =>
    cases hu : u name with
    | some a =>
      obtain ⟨b, hv, hab⟩ := only.exists_of_some hu
      simpa only [Layers.modifyIn, hu, hv] using .outermost (only.update (hfg a b hab) name)
    | none =>
      cases hv : v name with
      | none => simpa only [Layers.modifyIn, hu, hv] using .outermost only
      | some b =>
        -- the name is one of the extra names, and stays one
        simp only [Layers.modifyIn, hu, hv]
        refine .outermost fun other => ?_
        by_cases ho : other = name
        · subst ho
          obtain hrel | hextra := only other
          · rw [hu, hv] at hrel
            cases hrel
          · exact .inr hextra
        · rw [Function.update_of_ne ho]
          exact only other
  | @inside k u v us vs first more ih =>
    obtain ⟨hu, hv⟩ | ⟨a, b, hu, hv, hab⟩ := none_or_some_of_rel (first name)
    · simpa only [Layers.modifyIn, hu, hv] using .inside first ih
    · simpa only [Layers.modifyIn, hu, hv] using .inside (first.update (hfg a b hab) name) more

theorem Extends.exists_find? (h : Extends R extra k s t) {name : String} {a : α} (ha : s.find? name = some a) :
    ∃ b, t.find? name = some b ∧ R a b :=
  FramesExtend.exists_of_some h ha

/-- A name that is new in the innermost scope is new in the other one, unless that is outermost and the name extra. -/
theorem Extends.inner_eq_none (h : Extends R extra k s t) {name : String} (hs : s.inner name = none)
    (hname : k = 0 → name ∉ extra) : t.inner name = none := by
  have hnone : Option.Rel R (s.inner name) (t.inner name) → t.inner name = none := by
    intro hrel
    rw [hs] at hrel
    generalize t.inner name = b at hrel
    cases hrel
    rfl
  obtain ⟨f, fs⟩ := s
  obtain ⟨g, gs⟩ := t
  cases h with
  | outermost only => exact hnone ((only name).resolve_right fun hextra => hname rfl hextra.2)
  | inside first _ => exact hnone (first name)

theorem Extends.openScope (h : Extends R extra k s t) : Extends R extra (k + 1) s.openScope t.openScope :=
  .inside scopeRel_none h

theorem Extends.closeScope (h : Extends R extra (k + 1) s t) : Extends R extra k s.closeScope t.closeScope := by
  obtain ⟨f, fs⟩ := s
  obtain ⟨g, gs⟩ := t
  cases h with
  | inside _ more =>
    cases more with
    | outermost only => exact .outermost only
    | inside first more => exact .inside first more

theorem Extends.add (h : Extends R extra k s t) {a : α} {b : β} (hab : R a b) (name : String) :
    Extends R extra k (s.add name a) (t.add name b) := by
  obtain ⟨f, fs⟩ := s
  obtain ⟨g, gs⟩ := t
  cases h with
  | outermost only => exact .outermost (only.update hab name)
  | inside first more => exact .inside (first.update hab name) more

theorem Extends.modify (h : Extends R extra k s t) {f : α → α} {g : β → β} (hfg : ∀ a b, R a b → R (f a) (g b))
    (name : String) : Extends R extra k (s.modify name f) (t.modify name g) := by
  rw [Extends, frames_modify, frames_modify]
  exact FramesExtend.modifyIn h hfg name

/-- Globals extend themselves, whichever names may be extra. -/
theorem extends_self {R : α → α → Prop} (hR : ∀ a, R a a) {s : Layers α} (houter : s.outer = []) :
    Extends R extra 0 s s := by
  rw [Extends, houter]
  refine .outermost fun name => .inl ?_
  cases s.inner name with
  | none => exact .none
  | some a => exact .some (hR a)

/-- A new global that may be extra. -/
theorem Extends.add_extra (h : Extends R extra 0 s t) {name : String} (hname : name ∈ extra) (hs : s.inner name = none)
    (b : β) : Extends R extra 0 s (t.add name b) := by
  obtain ⟨f, fs⟩ := s
  obtain ⟨g, gs⟩ := t
  cases h with
  | outermost only =>
    refine .outermost fun other => ?_
    by_cases ho : other = name
    · subst ho
      exact .inr ⟨hs, hname⟩
    · have hsame : Function.update g name (some b) other = g other := Function.update_of_ne ho _ _
      show Option.Rel R (f other) (Function.update g name (some b) other) ∨ _
      rw [hsame]
      exact only other

end Extends

end Layers

/-! ### What is legal stays legal -/

section Eases

variable {extra : List String} {k : Nat} {env env₁ env' : Env}

theorem Value.Fits.of_extends {v : Value} {ty : Ty} (h : v.Fits ty env)
    (hextends : Layers.Extends Standing.Eases extra k env env') : v.Fits ty env' := by
  refine h.of_find? fun name st hst => ?_
  obtain ⟨st', hst', heases⟩ := hextends.exists_find? hst
  exact ⟨st', hst', heases.ty, heases.isAssigned⟩

/-- Assignments can be made where more is allowed. -/
theorem Assigns.exists_of_extends {as : List Assignment} (h : Assigns env as env₁)
    (hextends : Layers.Extends Standing.Eases extra k env env') :
    ∃ env₁', Assigns env' as env₁' ∧ Layers.Extends Standing.Eases extra k env₁ env₁' := by
  induction h generalizing env' with
  | nil => exact ⟨env', .nil, hextends⟩
  | cons target changeable fits _ ih =>
    obtain ⟨st', target', heases⟩ := hextends.exists_find? target
    obtain ⟨env₁', hrest, hextends₁⟩ := ih (hextends.modify (fun _ _ => Standing.Eases.assign) _)
    refine ⟨env₁', .cons target' (heases.changeable changeable) ?_ hrest, hextends₁⟩
    rw [heases.ty]
    exact fits.of_extends hextends

end Eases

end LineCheck
