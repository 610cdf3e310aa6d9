import LineCheck.Syntax.Statement
import LineCheck.Violation

/-!
# LineCheck.Symbol.Table — the variables of one scope

A table holds variables under keys.  It grows by `insertUnique`, which takes a variable's own name as its key and
refuses a name that is a key already.  A variable in it is changed through a `Slot`, which `slot?` looks for: what is
put into the slot stands in the table, and nothing else about the table changes.  A slot that is given back as it was
leaves the whole as it was (`Slot.replace_held`).  `record` is the table after a value was put into a slot
(`replace_slot?`).
-/

namespace LineCheck

/-- A variable: without a value as long as none is recorded. -/
structure Variable where
  name : String
  ty : Ty
  value : Option String
  isFinal : Bool
  deriving DecidableEq, Repr

namespace Variable

/-- What stands for the value of a parameter, which the caller gives. -/
def argument : String := "<argument>"

/-- The variable that a parameter is inside its function; it always has a value. -/
def ofParam (p : Param) : Variable :=
  ⟨p.name, p.ty, some argument, p.isFinal⟩

/-- A value is recorded. -/
def isAssigned (v : Variable) : Bool :=
  v.value.isSome

end Variable

/-- A variable that was looked up in a whole, to be changed there: what becomes of the whole if it is replaced. -/
structure Slot {σ : Type} (whole : σ) where
  held : Variable
  replace : Variable → σ
  replace_held : replace held = whole

/-- The same variable as a part of something larger. -/
def Slot.within {σ τ : Type} {whole : σ} (slot : Slot whole) (f : σ → τ) : Slot (f whole) :=
  ⟨slot.held, fun v => f (slot.replace v), congrArg f slot.replace_held⟩

/-- The variables that are declared in one scope, each under its key. -/
abbrev Table := List (String × Variable)

namespace Table

/-- The variable under this name. -/
def find? (t : Table) (name : String) : Option Variable :=
  (List.find? (fun entry => entry.1 == name) t).map Prod.snd

/-- The name is a key. -/
def contains (t : Table) (name : String) : Bool :=
  (t.find? name).isSome

/-- The table with the variable under the key, in place of what it had there. -/
def insert (t : Table) (key : String) (v : Variable) : Table :=
  (key, v) :: List.filter (fun entry => entry.1 != key) t

/-- Add a variable under its name, which may not be a key already. -/
def insertUnique (t : Table) (v : Variable) : Except Violation Unit × Table :=
  if t.contains v.name then (.error .variableExists, t) else (.ok (), t.insert v.name v)

/-- Look for a name, to change its variable. -/
def slot? (name : String) : (t : Table) → Option (Slot t)
  | [] => none
  | (key, v) :: rest =>
    if key = name then some ⟨v, fun w => (key, w) :: rest, rfl⟩
    else (slot? name rest).map (·.within ((key, v) :: ·))

/-- The table with a value recorded for the variable under this name. -/
def record (name value : String) : Table → Table
  | [] => []
  | (key, v) :: rest =>
    if key = name then (key, { v with value := some value }) :: rest else (key, v) :: record name value rest

/-! ### What is found -/

@[simp] theorem find?_nil (name : String) : find? [] name = none := rfl

theorem find?_cons (key : String) (v : Variable) (rest : Table) (name : String) :
    find? ((key, v) :: rest) name = if key = name then some v else find? rest name := by
  by_cases h : key = name <;> simp [find?, h]

theorem insert_of_find?_eq_none {t : Table} {key : String} (h : t.find? key = none) (v : Variable) :
    t.insert key v = (key, v) :: t := by
  have hkeys : List.filter (fun entry => entry.1 != key) t = t := by
    refine List.filter_eq_self.mpr fun entry hentry => ?_
    simpa using List.find?_eq_none.mp (Option.map_eq_none_iff.mp h) entry hentry
  rw [insert, hkeys]

/-- A variable is added if its name is new, and else the table stays as it is. -/
theorem insertUnique_cases (t : Table) (v : Variable) :
    t.find? v.name ≠ none ∧ t.insertUnique v = (.error .variableExists, t) ∨
    t.find? v.name = none ∧ t.insertUnique v = (.ok (), (v.name, v) :: t) := by
  cases h : t.find? v.name with
  | some w => exact .inl ⟨Option.some_ne_none w, by simp [insertUnique, contains, h]⟩
  | none => exact .inr ⟨rfl, by simp [insertUnique, contains, h, insert_of_find?_eq_none h]⟩

/-- Recording shows in the variable under the name, and in no other. -/
theorem find?_record (t : Table) (name value other : String) :
    (t.record name value).find? other =
      if name = other then (t.find? other).map fun v => { v with value := some value } else t.find? other := by
  induction t with
  | nil => simp [record]
  | cons entry rest ih =>
    obtain ⟨key, v⟩ := entry
    by_cases hkey : key = name <;> by_cases ho : name = other <;> simp_all [record, find?_cons]

/-- Recording under a name that the table does not have changes nothing. -/
theorem record_of_find?_eq_none {t : Table} {name : String} (h : t.find? name = none) (value : String) :
    t.record name value = t := by
  induction t with
  | nil => rfl
  | cons entry rest ih =>
    obtain ⟨key, v⟩ := entry
    by_cases hkey : key = name <;> simp_all [record, find?_cons]

/-! ### The slot of a name -/

/-- The slot of a name holds what the name finds. -/
theorem held_slot? (t : Table) (name : String) : (t.slot? name).map Slot.held = t.find? name := by
  induction t with
  | nil => rfl
  | cons entry rest ih =>
    obtain ⟨key, v⟩ := entry
    rw [find?_cons, slot?]
    by_cases h : key = name
    · rw [if_pos h, if_pos h]
      rfl
    · rw [if_neg h, if_neg h, Option.map_map, ← ih]
      rfl

/-- A value that is put into the slot of a name is recorded for it. -/
theorem replace_slot? {t : Table} {name : String} {slot : Slot t} (h : t.slot? name = some slot) (value : String) :
    slot.replace { slot.held with value := some value } = t.record name value := by
  induction t with
  | nil => cases h
  | cons entry rest ih =>
    obtain ⟨key, v⟩ := entry
    rw [slot?] at h
    rw [record]
    by_cases hkey : key = name
    · rw [if_pos hkey] at h
      cases h
      rw [if_pos hkey]
    · rw [if_neg hkey] at h
      obtain ⟨inner, hinner, rfl⟩ := Option.map_eq_some_iff.mp h
      rw [if_neg hkey, ← ih hinner]
      rfl

end Table

end LineCheck
