import LineCheck.Proofs.Symbol.Layers
import LineCheck.Rules

/-!
# LineCheck.Proofs.Symbol.Env — what the rules look at

The rules look at the type, the finality and the presence of a value of each variable in sight, never at the value
itself.  An `Env` keeps just that, and `Value.Fits`, `Declares` and `Assigns` say on it what a legal use, a legal
declaration and a legal line of assignments are.  The operations of `Rules` succeed exactly where these hold, and lead
to the environment that they name.

An environment `Grows` when variables are added or given values.  What was legal stays legal in a grown environment, and
assignments made once more in an environment grown out of their own result change nothing (`Assigns.replay`).
-/

namespace LineCheck

/-- What the rules look at in a variable. -/
structure Standing where
  ty : Ty
  isFinal : Bool
  isAssigned : Bool
  deriving DecidableEq, Repr

namespace Standing

/-- The variable with a value. -/
def assign (st : Standing) : Standing :=
  { st with isAssigned := true }

/-- The same variable, perhaps with a value by now. -/
structure Grows (st st' : Standing) : Prop where
  ty : st'.ty = st.ty
  isFinal : st'.isFinal = st.isFinal
  isAssigned : st.isAssigned = true → st'.isAssigned = true

theorem Grows.refl (st : Standing) : st.Grows st :=
  ⟨rfl, rfl, id⟩

theorem Grows.trans {a b c : Standing} (h : a.Grows b) (h' : b.Grows c) : a.Grows c :=
  ⟨h'.ty.trans h.ty, h'.isFinal.trans h.isFinal, h'.isAssigned ∘ h.isAssigned⟩

theorem grows_assign (st : Standing) : st.Grows st.assign :=
  ⟨rfl, rfl, fun _ => rfl⟩

theorem assign_eq_self {st : Standing} (h : st.isAssigned = true) : st.assign = st := by
  obtain ⟨ty, isFinal, isAssigned⟩ := st
  cases h
  rfl

end Standing

/-- What the rules look at in the variable. -/
def Variable.standing (v : Variable) : Standing :=
  ⟨v.ty, v.isFinal, v.isAssigned⟩

/-- What the rules look at in the variables in sight. -/
abbrev Env := Layers Standing

/-- The environment that the variables in sight make. -/
def Scopes.env (s : Scopes) : Env :=
  s.layers.map Variable.standing

/-! ### Legal uses and lines -/

/-- The value may stand where one of the type is wanted: a literal of the right sort, or the name of a variable that has
a value and whose type is taken there. -/
def Value.Fits (v : Value) (ty : Ty) (env : Env) : Prop :=
  match v with
  | literal l => l.fits ty = true
  | name n => ∃ st, env.find? n = some st ∧ st.isAssigned = true ∧ ty.accepts st.ty = true

/-- The variables may be declared one after the other, and lead from the first environment to the second. -/
inductive Declares (isFinal : Bool) (ty : Ty) : Env → List Declarator → Env → Prop where
  | nil {env : Env} : Declares isFinal ty env [] env
  | cons {env env' : Env} {d : Declarator} {ds : List Declarator} (fits : ∀ v, d.init = some v → v.Fits ty env)
      (fresh : env.inner d.name = none)
      (rest : Declares isFinal ty (env.add d.name ⟨ty, isFinal, d.init.isSome⟩) ds env') :
      Declares isFinal ty env (d :: ds) env'

/-- The assignments may be made one after the other, and lead from the first environment to the second. -/
inductive Assigns : Env → List Assignment → Env → Prop where
  | nil {env : Env} : Assigns env [] env
  | cons {env env' : Env} {a : Assignment} {as : List Assignment} {st : Standing} (target : env.find? a.name = some st)
      (changeable : st.isFinal = false) (fits : a.value.Fits st.ty env)
      (rest : Assigns (env.modify a.name Standing.assign) as env') : Assigns env (a :: as) env'

/-- The environment at the start of a function with these parameters, which all have values. -/
def Env.withParams (env : Env) (params : List Param) : Env :=
  params.foldl (fun env p => env.add p.name ⟨p.ty, p.isFinal, true⟩) env

/-! ### The rules on tables say the same -/

section Rules

variable {s s' : Scopes}

theorem Scopes.find?_env (s : Scopes) (name : String) : s.env.find? name = (s.resolve name).map Variable.standing := by
  rw [env, Layers.find?_map, find?_layers]

theorem Scopes.inner_env (s : Scopes) (name : String) :
    s.env.inner name = none ↔ s.layers.inner name = none := by
  rw [env, Layers.inner_map, Option.map_eq_none_iff]

theorem Value.fits_iff {v : Value} {ty : Ty} : v.fits ty s = true ↔ v.Fits ty s.env := by
  cases v with
  | literal l => exact Iff.rfl
  | name n =>
    simp only [fits, Fits, Scopes.find?_env]
    cases s.resolve n with
    | none => simp
    | some v => simp [Variable.standing]

theorem Scopes.env_of_declare {v : Variable} (h : s.declare v = (.ok (), s')) :
    s.env.inner v.name = none ∧ s'.env = s.env.add v.name v.standing ∧ s.Keeps s' := by
  obtain ⟨hfresh, hlayers, hkeeps⟩ := layers_of_declare h
  exact ⟨(s.inner_env v.name).mpr hfresh, by rw [env, hlayers, Layers.map_add, env], hkeeps⟩

theorem Scopes.env_record (s : Scopes) (name value : String) :
    (s.record name value).env = s.env.modify name Standing.assign := by
  have hstanding : ∀ v : Variable, Variable.standing { v with value := some value } = v.standing.assign := fun _ => rfl
  rw [env, layers_record, Layers.map_modify hstanding, env]

namespace Declarator

variable {d : Declarator} {isFinal : Bool} {ty : Ty}

theorem standing_of_init (d : Declarator) (isFinal : Bool) (ty : Ty) :
    Variable.standing ⟨d.name, ty, d.init.map Value.text, isFinal⟩ = ⟨ty, isFinal, d.init.isSome⟩ := by
  cases h : d.init <;> simp [Variable.standing, Variable.isAssigned]

theorem all_fits_iff : d.init.all (·.fits ty s) = true ↔ ∀ v, d.init = some v → v.Fits ty s.env := by
  cases d.init with
  | none => simp
  | some v => simpa using Value.fits_iff

theorem of_declareIn (h : d.declareIn isFinal ty s = (.ok (), s')) :
    (∀ v, d.init = some v → v.Fits ty s.env) ∧ s.env.inner d.name = none ∧
      s'.env = s.env.add d.name ⟨ty, isFinal, d.init.isSome⟩ ∧ s.Keeps s' := by
  unfold declareIn at h
  split at h
  · next hfits =>
    obtain ⟨hfresh, henv, hkeeps⟩ := Scopes.env_of_declare h
    exact ⟨all_fits_iff.mp hfits, hfresh, by rw [henv, standing_of_init], hkeeps⟩
  · cases h

theorem exists_declareIn (hfits : ∀ v, d.init = some v → v.Fits ty s.env) (hfresh : s.env.inner d.name = none) :
    ∃ s', d.declareIn isFinal ty s = (.ok (), s') := by
  rw [declareIn, if_pos (all_fits_iff.mpr hfits)]
  exact Scopes.exists_declare ((s.inner_env d.name).mp hfresh)

end Declarator

namespace Assignment

variable {a : Assignment}

theorem of_applyTo (h : a.applyTo s = (.ok (), s')) :
    ∃ st, s.env.find? a.name = some st ∧ st.isFinal = false ∧ a.value.Fits st.ty s.env ∧
      s'.env = s.env.modify a.name Standing.assign ∧ s.Keeps s' := by
  obtain ⟨e, -, hrefused⟩ | ⟨v, hv, hopen, hfits, hrecorded⟩ := a.applyTo_cases s
  · rw [hrefused] at h
    cases h
  · rw [hrecorded] at h
    cases h
    exact ⟨v.standing, by rw [Scopes.find?_env, hv]; rfl, hopen, Value.fits_iff.mp hfits,
      s.env_record a.name a.value.text, s.keeps_record a.name a.value.text⟩

theorem exists_applyTo {st : Standing} (hst : s.env.find? a.name = some st) (hopen : st.isFinal = false)
    (hfits : a.value.Fits st.ty s.env) : ∃ s', a.applyTo s = (.ok (), s') := by
  rw [Scopes.find?_env] at hst
  obtain ⟨v, hv, rfl⟩ := Option.map_eq_some_iff.mp hst
  exact ⟨_, applyTo_eq_ok hv hopen (Value.fits_iff.mpr hfits)⟩

end Assignment

namespace Param

variable {p : Param}

theorem of_declareIn (h : p.declareIn s = (.ok (), s')) :
    s.env.inner p.name = none ∧ s'.env = s.env.add p.name ⟨p.ty, p.isFinal, true⟩ ∧ s.Keeps s' :=
  Scopes.env_of_declare h

theorem exists_declareIn (hfresh : s.env.inner p.name = none) : ∃ s', p.declareIn s = (.ok (), s') :=
  Scopes.exists_declare ((s.inner_env p.name).mp hfresh)

end Param

end Rules

/-! ### Environments grow -/

namespace Layers

/-- What is known of a name stays known: variables are added, and some are given values. -/
def Grows (env env' : Env) : Prop :=
  ∀ name st, env.find? name = some st → ∃ st', env'.find? name = some st' ∧ st.Grows st'

variable {env env' top : Env}

theorem Grows.refl (env : Env) : env.Grows env :=
  fun _ st h => ⟨st, h, .refl st⟩

theorem Grows.trans {env'' : Env} (h : env.Grows env') (h' : env'.Grows env'') : env.Grows env'' := by
  intro name st hst
  obtain ⟨st', hst', hg⟩ := h name st hst
  obtain ⟨st'', hst'', hg'⟩ := h' name st' hst'
  exact ⟨st'', hst'', hg.trans hg'⟩

theorem grows_assign (env : Env) (name : String) : env.Grows (env.modify name Standing.assign) := by
  intro other st hst
  rw [find?_modify]
  by_cases h : name = other
  · exact ⟨st.assign, by rw [if_pos h, hst]; rfl, st.grows_assign⟩
  · exact ⟨st, by rw [if_neg h, hst], .refl st⟩

/-- A name that nothing in sight has may be added anywhere. -/
theorem grows_add {name : String} (h : env.find? name = none) (st : Standing) : env.Grows (env.add name st) := by
  intro other st' hst'
  rw [find?_add]
  by_cases ho : name = other
  · rw [← ho, h] at hst'
    cases hst'
  · exact ⟨st', by rw [if_neg ho, hst'], .refl st'⟩

/-- Outside functions there is only one scope, so a name that is new in it is new altogether. -/
theorem find?_eq_none_of_outer {name : String} (houter : env.outer = []) (h : env.inner name = none) :
    env.find? name = none := by
  rw [find?_eq, h, houter]
  rfl

end Layers

/-- A value that fits goes on to fit where each variable still has its type, and its value if it has one. -/
theorem Value.Fits.of_find? {v : Value} {ty : Ty} {env env' : Env} (h : v.Fits ty env)
    (hkept : ∀ name st, env.find? name = some st →
      ∃ st', env'.find? name = some st' ∧ st'.ty = st.ty ∧ (st.isAssigned = true → st'.isAssigned = true)) :
    v.Fits ty env' := by
  cases v with
  | literal l => exact h
  | name n =>
    obtain ⟨st, hst, hassigned, haccepts⟩ := h
    obtain ⟨st', hst', hty, hassigned'⟩ := hkept n st hst
    exact ⟨st', hst', hassigned' hassigned, hty ▸ haccepts⟩

/-- A value that fits goes on to fit. -/
theorem Value.Fits.of_grows {v : Value} {ty : Ty} {env env' : Env} (h : v.Fits ty env) (hgrows : env.Grows env') :
    v.Fits ty env' := by
  refine h.of_find? fun name st hst => ?_
  obtain ⟨st', hst', hg⟩ := hgrows name st hst
  exact ⟨st', hst', hg.ty, hg.isAssigned⟩

theorem Assigns.grows {env env' : Env} {as : List Assignment} (h : Assigns env as env') : env.Grows env' := by
  induction h with
  | nil => exact .refl _
  | cons _ _ _ _ ih => exact (Layers.grows_assign _ _).trans ih

/-- Declarations outside functions only add to what is known. -/
theorem Declares.grows {isFinal : Bool} {ty : Ty} {env env' : Env} {ds : List Declarator}
    (h : Declares isFinal ty env ds env') (houter : env.outer = []) : env.Grows env' := by
  induction h with
  | nil => exact .refl _
  | cons _ fresh _ ih =>
    have hnew := Layers.find?_eq_none_of_outer houter fresh
    exact (Layers.grows_add hnew _).trans (ih houter)

theorem Declares.outer_eq {isFinal : Bool} {ty : Ty} {env env' : Env} {ds : List Declarator}
    (h : Declares isFinal ty env ds env') : env'.outer = env.outer := by
  induction h with
  | nil => rfl
  | cons _ _ _ ih => exact ih

theorem Assigns.outer_eq_nil {env env' : Env} {as : List Assignment} (h : Assigns env as env')
    (houter : env.outer = []) : env'.outer = [] := by
  induction h with
  | nil => exact houter
  | cons _ _ _ _ ih =>
    refine ih ?_
    unfold Layers.modify
    split
    · exact houter
    · rw [houter]
      rfl

/-- Assignments lead to one environment only. -/
theorem Assigns.unique {env env' env'' : Env} {as : List Assignment} (h : Assigns env as env')
    (h' : Assigns env as env'') : env' = env'' := by
  induction h with
  | nil => cases h'; rfl
  | cons _ _ _ _ ih => cases h' with
    | cons _ _ _ rest => exact ih rest

/-- Made once more in an environment that has grown out of their result, assignments are legal still and change
nothing. -/
theorem Assigns.replay {env env' top : Env} {as : List Assignment} (h : Assigns env as env') (hgrows : env'.Grows top) :
    Assigns top as top := by
  induction h with
  | nil => exact .nil
  | @cons env env' a as st target hopen fits rest ih =>
    have hassigned := rest.grows.trans hgrows
    have hgrown := (Layers.grows_assign env a.name).trans hassigned
    -- the target has had its value since its first assignment
    obtain ⟨st', hst', hg⟩ := hassigned a.name st.assign (by rw [Layers.find?_modify, if_pos rfl, target]; rfl)
    have hsame : top.modify a.name Standing.assign = top := by
      refine Layers.modify_eq_self fun b hb => ?_
      obtain rfl : st' = b := Option.some.inj (hst'.symm.trans hb)
      exact Standing.assign_eq_self (hg.isAssigned rfl)
    refine .cons hst' (hg.isFinal.trans hopen) ?_ (by rw [hsame]; exact ih hgrows)
    have hty : st'.ty = st.ty := hg.ty
    rw [hty]
    exact fits.of_grows hgrown

end LineCheck
