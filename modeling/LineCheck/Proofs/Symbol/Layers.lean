import LineCheck.Symbol.Scopes
import Mathlib.Data.List.Forall2
import Mathlib.Data.Option.Basic
import Mathlib.Logic.Function.Basic

/-!
# LineCheck.Proofs.Symbol.Layers — names in nested scopes

What is said of names in nested scopes, whatever it is that is said: a function from names for each scope, the innermost
apart.  A name means what the innermost scope says that says anything of it (`find?`).  `Scopes.layers` reads the tables
of variables this way, and each operation on `Scopes` becomes one on layers (`layers_of_declare`, `layers_record`).
Two such readings are related by `Rel` if they have the same names in the same scopes and related entries.
-/

namespace LineCheck

/-! ### Lookup in lists that are related item by item -/

section Lookup

variable {α β γ δ : Type} {A : α → β → Prop} {B : γ → δ → Prop} {as : List α} {bs : List β}

theorem isSome_of_rel {a : Option α} {b : Option β} (h : Option.Rel A a b) : b.isSome = a.isSome := by
  cases h <;> rfl

theorem eq_none_iff_of_rel {a : Option α} {b : Option β} (h : Option.Rel A a b) : a = none ↔ b = none := by
  cases h <;> simp

theorem map_rel {a : Option α} {b : Option β} (h : Option.Rel A a b) {f : α → γ} {g : β → δ}
    (hfg : ∀ x y, A x y → B (f x) (g y)) : Option.Rel B (a.map f) (b.map g) := by
  cases h with
  | none => exact .none
  | some hxy => exact .some (hfg _ _ hxy)

theorem none_or_some_of_rel {a : Option α} {b : Option β} (h : Option.Rel A a b) :
    a = none ∧ b = none ∨ ∃ x y, a = some x ∧ b = some y ∧ A x y := by
  cases h with
  | none => exact .inl ⟨rfl, rfl⟩
  | some hxy => exact .inr ⟨_, _, rfl, rfl, hxy⟩

theorem exists_mem_of_forall₂ (h : List.Forall₂ A as bs) {a : α} (ha : a ∈ as) : ∃ b ∈ bs, A a b := by
  induction h with
  | nil => cases ha
  | @cons a' b as bs hab _ ih =>
    rcases List.mem_cons.mp ha with rfl | ha
    · exact ⟨b, List.mem_cons_self, hab⟩
    · obtain ⟨b', hmem, hab'⟩ := ih ha
      exact ⟨b', List.mem_cons_of_mem b hmem, hab'⟩

theorem map_eq_of_forall₂ (h : List.Forall₂ A as bs) {f : α → γ} {g : β → γ} (hfg : ∀ a b, A a b → g b = f a) :
    bs.map g = as.map f := by
  induction h with
  | nil => rfl
  | cons hab _ ih => rw [List.map_cons, List.map_cons, hfg _ _ hab, ih]

theorem find?_of_forall₂ (h : List.Forall₂ A as bs) {p : α → Bool} {q : β → Bool} (hpq : ∀ a b, A a b → q b = p a) :
    Option.Rel A (as.find? p) (bs.find? q) := by
  induction h with
  | nil => exact .none
  | @cons a b as bs hab _ ih =>
    rw [List.find?_cons, List.find?_cons, hpq a b hab]
    cases p a with
    | true => exact .some hab
    | false => exact ih

theorem findSome?_of_forall₂ (h : List.Forall₂ A as bs) {f : α → Option γ} {g : β → Option δ}
    (hfg : ∀ a b, A a b → Option.Rel B (f a) (g b)) : Option.Rel B (as.findSome? f) (bs.findSome? g) := by
  induction h with
  | nil => exact .none
  | @cons a b as bs hab _ ih =>
    have hitem := hfg a b hab
    rw [List.findSome?_cons, List.findSome?_cons]
    generalize f a = c at hitem ⊢
    generalize g b = d at hitem ⊢
    cases hitem with
    | none => exact ih
    | some hcd => exact .some hcd

end Lookup

/-! ### Layers -/

/-- What the innermost scope says of each name, and what the scopes around it say, the nearest first. -/
@[ext] structure Layers (α : Type) where
  inner : String → Option α
  outer : List (String → Option α)

namespace Layers

variable {α β : Type}

/-- One scope without names. -/
def empty : Layers α :=
  ⟨fun _ => none, []⟩

/-- What is said where a name is used. -/
def find? (s : Layers α) (name : String) : Option α :=
  (s.inner :: s.outer).findSome? (· name)

/-- A new scope inside the innermost one. -/
def openScope (s : Layers α) : Layers α :=
  ⟨fun _ => none, s.inner :: s.outer⟩

/-- The scopes without the innermost one, unless it is the only one. -/
def closeScope (s : Layers α) : Layers α :=
  match s.outer with
  | [] => s
  | inner :: outer => ⟨inner, outer⟩

/-- A new name in the innermost scope. -/
def add (s : Layers α) (name : String) (a : α) : Layers α :=
  { s with inner := Function.update s.inner name (some a) }

/-- Change what the first scope says that says anything of the name. -/
def modifyIn (name : String) (f : α → α) : List (String → Option α) → List (String → Option α)
  | [] => []
  | t :: ts =>
    match t name with
    | some a => Function.update t name (some (f a)) :: ts
    | none => t :: modifyIn name f ts

/-- Change what is said where the name is used. -/
def modify (s : Layers α) (name : String) (f : α → α) : Layers α :=
  match s.inner name with
  | some a => { s with inner := Function.update s.inner name (some (f a)) }
  | none => { s with outer := modifyIn name f s.outer }

/-- The same names with something else said of them. -/
def map (g : α → β) (s : Layers α) : Layers β :=
  ⟨fun name => (s.inner name).map g, s.outer.map fun t name => (t name).map g⟩

/-! ### What is found -/

theorem find?_eq (s : Layers α) (name : String) :
    s.find? name = (s.inner name).or (s.outer.findSome? (· name)) := by
  cases h : s.inner name <;> simp [find?, h]

theorem find?_of_inner {s : Layers α} {name : String} {a : α} (h : s.inner name = some a) :
    s.find? name = some a := by
  rw [find?_eq, h, Option.some_or]

theorem find?_add (s : Layers α) (name other : String) (a : α) :
    (s.add name a).find? other = if name = other then some a else s.find? other := by
  by_cases h : name = other
  · subst h
    simp [find?_eq, add]
  · simp [find?_eq, add, Function.update_of_ne (Ne.symm h), h]

theorem findSome?_modifyIn (name other : String) (f : α → α) (ts : List (String → Option α)) :
    (modifyIn name f ts).findSome? (· other) =
      if name = other then (ts.findSome? (· other)).map f else ts.findSome? (· other) := by
  induction ts with
  | nil => simp [modifyIn]
  | cons t ts ih =>
    by_cases h : name = other
    · subst h
      cases ht : t name <;> simp_all [modifyIn]
    · cases ht : t name with
      | some a => simp [modifyIn, ht, List.findSome?_cons, Function.update_of_ne (Ne.symm h), h]
      | none => simp_all [modifyIn, List.findSome?_cons]

theorem frames_modify (s : Layers α) (name : String) (f : α → α) :
    (s.modify name f).inner :: (s.modify name f).outer = modifyIn name f (s.inner :: s.outer) := by
  cases hs : s.inner name <;> simp [modify, modifyIn, hs]

/-- A change shows in what its name means, and in nothing else. -/
theorem find?_modify (s : Layers α) (name other : String) (f : α → α) :
    (s.modify name f).find? other = if name = other then (s.find? other).map f else s.find? other := by
  rw [find?, frames_modify, findSome?_modifyIn name other f (s.inner :: s.outer)]
  rfl

theorem modifyIn_eq_self {name : String} {f : α → α} {ts : List (String → Option α)}
    (h : ∀ a, ts.findSome? (· name) = some a → f a = a) : modifyIn name f ts = ts := by
  induction ts with
  | nil => rfl
  | cons t ts ih =>
    cases ht : t name with
    | some a =>
      have hfa : f a = a := h a (by simp [ht])
      simp only [modifyIn, ht]
      rw [hfa, ← ht, Function.update_eq_self]
    | none =>
      simp only [modifyIn, ht]
      rw [ih fun a ha => h a (by simpa [List.findSome?_cons, ht] using ha)]

/-- A change that changes nothing where the name is used changes nothing at all. -/
theorem modify_eq_self {s : Layers α} {name : String} {f : α → α} (h : ∀ a, s.find? name = some a → f a = a) :
    s.modify name f = s := by
  cases hs : s.inner name with
  | some a =>
    have hfa : f a = a := h a (find?_of_inner hs)
    simp only [modify, hs]
    rw [hfa, ← hs, Function.update_eq_self]
  | none =>
    simp only [modify, hs]
    rw [modifyIn_eq_self fun a ha => h a (by simpa [find?_eq, hs] using ha)]

/-! ### Saying something else of the same names -/

@[simp] theorem inner_map (g : α → β) (s : Layers α) (name : String) :
    (s.map g).inner name = (s.inner name).map g := rfl

@[simp] theorem map_openScope (g : α → β) (s : Layers α) : s.openScope.map g = (s.map g).openScope := rfl

@[simp] theorem map_closeScope (g : α → β) (s : Layers α) : s.closeScope.map g = (s.map g).closeScope := by
  obtain ⟨inner, outer⟩ := s
  cases outer <;> rfl

theorem findSome?_map (g : α → β) (ts : List (String → Option α)) (name : String) :
    (ts.map fun t n => (t n).map g).findSome? (· name) = (ts.findSome? (· name)).map g := by
  induction ts with
  | nil => rfl
  | cons t ts ih => cases ht : t name <;> simp_all

@[simp] theorem find?_map (g : α → β) (s : Layers α) (name : String) : (s.map g).find? name = (s.find? name).map g :=
  findSome?_map g (s.inner :: s.outer) name

theorem update_map (g : α → β) (t : String → Option α) (name : String) (a : α) :
    (fun n => (Function.update t name (some a) n).map g) =
      Function.update (fun n => (t n).map g) name (some (g a)) := by
  funext n
  by_cases h : n = name
  · subst h
    simp
  · simp [Function.update_of_ne h]

@[simp] theorem map_add (g : α → β) (s : Layers α) (name : String) (a : α) :
    (s.add name a).map g = (s.map g).add name (g a) := by
  rw [map, add, add, update_map]
  rfl

theorem map_modifyIn {g : α → β} {f : α → α} {f' : β → β} (h : ∀ a, g (f a) = f' (g a)) (name : String)
    (ts : List (String → Option α)) :
    (modifyIn name f ts).map (fun t n => (t n).map g) = modifyIn name f' (ts.map fun t n => (t n).map g) := by
  induction ts with
  | nil => rfl
  | cons t ts ih => cases ht : t name <;> simp [modifyIn, ht, ih, update_map, h]

theorem map_modify {g : α → β} {f : α → α} {f' : β → β} (h : ∀ a, g (f a) = f' (g a)) (name : String)
    (s : Layers α) : (s.modify name f).map g = (s.map g).modify name f' := by
  cases hs : s.inner name with
  | some a => simp [modify, map, hs, update_map, h]
  | none =>
    have hin := map_modifyIn h name s.outer
    simp [modify, map, hs, hin]

/-! ### Related entries -/

variable {γ : Type} {R : α → β → Prop} {s : Layers α} {t : Layers β}

/-- Two scopes have the same names, with related entries. -/
def ScopeRel (R : α → β → Prop) (f : String → Option α) (g : String → Option β) : Prop :=
  ∀ name, Option.Rel R (f name) (g name)

/-- The same names stand in the same scopes, with related entries. -/
structure Rel (R : α → β → Prop) (s : Layers α) (t : Layers β) : Prop where
  inner : ScopeRel R s.inner t.inner
  outer : List.Forall₂ (ScopeRel R) s.outer t.outer

theorem scopeRel_none : ScopeRel R (fun _ => none) (fun _ => none) :=
  fun _ => .none

theorem ScopeRel.update {f : String → Option α} {g : String → Option β} (h : ScopeRel R f g) {a : α} {b : β}
    (hab : R a b) (name : String) : ScopeRel R (Function.update f name (some a)) (Function.update g name (some b)) := by
  intro other
  by_cases ho : other = name
  · subst ho
    simpa using hab
  · simpa [Function.update_of_ne ho] using h other

theorem rel_empty : Rel R empty empty :=
  ⟨scopeRel_none, .nil⟩

theorem Rel.openScope (h : Rel R s t) : Rel R s.openScope t.openScope :=
  ⟨scopeRel_none, .cons h.inner h.outer⟩

theorem Rel.closeScope (h : Rel R s t) : Rel R s.closeScope t.closeScope := by
  obtain ⟨sinner, souter⟩ := s
  obtain ⟨tinner, touter⟩ := t
  obtain ⟨hinner, houter⟩ := h
  cases houter with
  | nil => exact ⟨hinner, .nil⟩
  | cons hfirst hmore => exact ⟨hfirst, hmore⟩

theorem findSome?_rel {fs : List (String → Option α)} {gs : List (String → Option β)}
    (h : List.Forall₂ (ScopeRel R) fs gs) (name : String) :
    Option.Rel R (fs.findSome? (· name)) (gs.findSome? (· name)) :=
  findSome?_of_forall₂ h fun _ _ hfg => hfg name

theorem Rel.find? (h : Rel R s t) (name : String) : Option.Rel R (s.find? name) (t.find? name) :=
  findSome?_rel (.cons h.inner h.outer) name

theorem Rel.exists_find? (h : Rel R s t) {name : String} {a : α} (ha : s.find? name = some a) :
    ∃ b, t.find? name = some b ∧ R a b := by
  obtain ⟨hs, -⟩ | ⟨a', b, hs, ht, hab⟩ := none_or_some_of_rel (h.find? name)
  · rw [ha] at hs
    cases hs
  · rw [ha] at hs
    cases hs
    exact ⟨b, ht, hab⟩

theorem Rel.add (h : Rel R s t) {a : α} {b : β} (hab : R a b) (name : String) : Rel R (s.add name a) (t.add name b) :=
  ⟨h.inner.update hab name, h.outer⟩

theorem modifyIn_rel {fs : List (String → Option α)} {gs : List (String → Option β)}
    (h : List.Forall₂ (ScopeRel R) fs gs) {name : String} {f : α → α} {g : β → β}
    (hfg : ∀ a b, fs.findSome? (· name) = some a → gs.findSome? (· name) = some b → R a b → R (f a) (g b)) :
    List.Forall₂ (ScopeRel R) (modifyIn name f fs) (modifyIn name g gs) := by
  induction h with
  | nil => exact .nil
  | @cons u v us vs huv hmore ih =>
    obtain ⟨hu, hv⟩ | ⟨a, b, hu, hv, hab⟩ := none_or_some_of_rel (huv name)
    · have hrest := ih fun a b ha hb => hfg a b (by simpa [hu] using ha) (by simpa [hv] using hb)
      simpa only [modifyIn, hu, hv] using .cons huv hrest
    · have hentry := hfg a b (by simp [hu]) (by simp [hv]) hab
      simpa only [modifyIn, hu, hv] using .cons (huv.update hentry name) hmore

/-- A change on both sides, of which only the entries that the name means have to be related. -/
theorem Rel.modify (h : Rel R s t) {name : String} {f : α → α} {g : β → β}
    (hfg : ∀ a b, s.find? name = some a → t.find? name = some b → R a b → R (f a) (g b)) :
    Rel R (s.modify name f) (t.modify name g) := by
  obtain ⟨hs, ht⟩ | ⟨a, b, hs, ht, hab⟩ := none_or_some_of_rel (h.inner name)
  · have houter : List.Forall₂ (ScopeRel R) (modifyIn name f s.outer) (modifyIn name g t.outer) :=
      modifyIn_rel h.outer fun a b ha hb =>
        hfg a b (by simpa [find?_eq, hs] using ha) (by simpa [find?_eq, ht] using hb)
    simpa only [Layers.modify, hs, ht] using ⟨h.inner, houter⟩
  · have hentry := hfg a b (find?_of_inner hs) (find?_of_inner ht) hab
    simpa only [Layers.modify, hs, ht] using ⟨h.inner.update hentry name, h.outer⟩

end Layers

/-! ### Tables of variables as layers -/

theorem Table.find?_insert (t : Table) (v : Variable) :
    Table.find? ((v.name, v) :: t) = Function.update (Table.find? t) v.name (some v) := by
  funext name
  rw [Table.find?_cons]
  by_cases h : v.name = name
  · subst h
    simp
  · simp [Function.update_of_ne (Ne.symm h), h]

theorem Table.find?_record_of_some {t : Table} {name : String} {v : Variable} (hv : t.find? name = some v)
    (value : String) :
    Table.find? (t.record name value) =
      Function.update (Table.find? t) name (some { v with value := some value }) := by
  funext other
  rw [Table.find?_record]
  by_cases h : name = other
  · subst h
    simp [hv]
  · simp [Function.update_of_ne (Ne.symm h), h]

namespace Scopes

/-- The variables in sight by name. -/
def layers (s : Scopes) : Layers Variable :=
  match s.stack with
  | [] => ⟨Table.find? s.globals, []⟩
  | table :: outer => ⟨Table.find? table, outer.map Table.find?⟩

/-- Work in the open tables: none is opened or closed, and inside a function the globals stay as they are. -/
structure Keeps (s s' : Scopes) : Prop where
  height : s'.stack.length = s.stack.length
  globals : s.stack ≠ [] → s'.globals = s.globals

theorem Keeps.refl (s : Scopes) : s.Keeps s :=
  ⟨rfl, fun _ => rfl⟩

theorem Keeps.depth {s s' : Scopes} (h : s.Keeps s') : s'.depth = s.depth :=
  h.height

theorem Keeps.stack_ne_nil {s s' : Scopes} (h : s.Keeps s') : s'.stack ≠ [] ↔ s.stack ≠ [] := by
  rw [← List.length_pos_iff, ← List.length_pos_iff, h.height]

theorem Keeps.trans {s s' s'' : Scopes} (h : s.Keeps s') (h' : s'.Keeps s'') : s.Keeps s'' :=
  ⟨h'.height.trans h.height, fun hs => (h'.globals (h.stack_ne_nil.mpr hs)).trans (h.globals hs)⟩

theorem find?_layers (s : Scopes) (name : String) : s.layers.find? name = s.resolve name := by
  have htables : ∀ ts : List Table,
      (ts.map Table.find?).findSome? (· name) = ts.findSome? (Table.find? · name) := by
    intro ts
    rw [List.findSome?_map]
    rfl
  cases hs : s.stack with
  | nil => simp [layers, resolve, visible, hs, Layers.find?]
  | cons t ts =>
    simp only [layers, resolve, visible, hs, Layers.find?]
    exact htables (t :: ts)

theorem layers_openBlock {s : Scopes} (h : s.stack ≠ []) : s.openBlock.layers = s.layers.openScope := by
  cases hs : s.stack with
  | nil => exact absurd hs h
  | cons t ts =>
    simp only [layers, openBlock, hs]
    rfl

/-- Leaving a block, as long as a table stays open. -/
theorem layers_closeInnermost {s : Scopes} (h : 1 < s.stack.length) :
    s.closeInnermost.layers = s.layers.closeScope := by
  match hs : s.stack, h with
  | t :: u :: ts, _ => simp [layers, closeInnermost, hs, Layers.closeScope]

theorem layers_of_stack_eq_nil {s : Scopes} (h : s.stack = []) : s.layers = ⟨Table.find? s.globals, []⟩ := by
  simp [layers, h]

/-- A variable that is declared is new in the innermost scope, and stands there afterwards. -/
theorem layers_of_declare {s s' : Scopes} {v : Variable} (h : s.declare v = (.ok (), s')) :
    s.layers.inner v.name = none ∧ s'.layers = s.layers.add v.name v ∧ s.Keeps s' := by
  cases hs : s.stack with
  | nil =>
    rw [declare_of_nil hs] at h
    obtain ⟨-, hdeclare⟩ | ⟨hfresh, hdeclare⟩ := s.declareGlobal_cases v
    · rw [hdeclare] at h
      cases h
    · rw [hdeclare] at h
      cases h
      refine ⟨by simpa [layers, hs] using hfresh, ?_, rfl, fun hne => absurd hs hne⟩
      simp only [layers, hs, Layers.add, Table.find?_insert]
  | cons table outer =>
    obtain ⟨-, hdeclare⟩ | ⟨hfresh, hdeclare⟩ := declare_of_cons hs v
    · rw [hdeclare] at h
      cases h
    · rw [hdeclare] at h
      cases h
      refine ⟨by simpa [layers, hs] using hfresh, ?_, by simp [hs], fun _ => rfl⟩
      simp only [layers, hs, Layers.add, Table.find?_insert]

/-- Only a name that the innermost scope has already is refused, and then nothing changes. -/
theorem declare_cases (s : Scopes) (v : Variable) :
    (∃ s', s.declare v = (.ok (), s')) ∨ s.declare v = (.error .variableExists, s) ∧ s.layers.inner v.name ≠ none := by
  cases hs : s.stack with
  | nil =>
    rw [declare_of_nil hs]
    obtain ⟨hknown, hdeclare⟩ | ⟨-, hdeclare⟩ := s.declareGlobal_cases v
    · exact .inr ⟨hdeclare, by simpa [layers, hs] using hknown⟩
    · exact .inl ⟨_, hdeclare⟩
  | cons table outer =>
    obtain ⟨hknown, hdeclare⟩ | ⟨-, hdeclare⟩ := declare_of_cons hs v
    · exact .inr ⟨hdeclare, by simpa [layers, hs] using hknown⟩
    · exact .inl ⟨_, hdeclare⟩

theorem exists_declare {s : Scopes} {v : Variable} (h : s.layers.inner v.name = none) :
    ∃ s', s.declare v = (.ok (), s') :=
  (s.declare_cases v).resolve_right fun hex => hex.2 h

theorem map_recordIn (name value : String) (ts : List Table) :
    (recordIn name value ts).map Table.find? =
      Layers.modifyIn name (fun v => { v with value := some value }) (ts.map Table.find?) := by
  induction ts with
  | nil => rfl
  | cons t ts ih =>
    cases ht : t.find? name with
    | some v => simp [recordIn, Layers.modifyIn, ht, Table.find?_record_of_some ht]
    | none => simp [recordIn, Layers.modifyIn, ht, ih]

theorem length_recordIn (name value : String) (ts : List Table) : (recordIn name value ts).length = ts.length := by
  induction ts with
  | nil => rfl
  | cons t ts ih =>
    unfold recordIn
    split <;> simp [ih]

theorem keeps_record (s : Scopes) (name value : String) : s.Keeps (s.record name value) := by
  cases hs : s.stack with
  | nil => exact ⟨by simp [record, hs], fun h => absurd hs h⟩
  | cons t ts =>
    constructor
    · simp only [record, hs, length_recordIn]
    · intro _
      simp only [record, hs]

/-- Recording a value changes the variable that the name means. -/
theorem layers_record (s : Scopes) (name value : String) :
    (s.record name value).layers = s.layers.modify name fun v => { v with value := some value } := by
  cases hs : s.stack with
  | nil =>
    cases hv : s.globals.find? name with
    | some v => simp [record, layers, hs, Layers.modify, hv, Table.find?_record_of_some hv]
    | none => simp [record, layers, hs, Layers.modify, hv, Table.record_of_find?_eq_none hv, Layers.modifyIn]
  | cons t ts =>
    cases hv : t.find? name with
    | some v => simp [record, recordIn, layers, hs, Layers.modify, hv, Table.find?_record_of_some hv]
    | none => simp [record, recordIn, layers, hs, Layers.modify, hv, map_recordIn]

end Scopes

end LineCheck
