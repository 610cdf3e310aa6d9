import LineCheck.Symbol.Table

/-!
# LineCheck.Symbol.Scopes — the variables that are in sight

Outside functions there is one table, that of the globals.  A function starts from a copy of it, so whatever happens to
a global inside a function is forgotten at its end; on top of the copy stand the table of the function itself and
one table for each block that is open.  A name means the variable of the innermost table that has it.
-/

namespace LineCheck

/-- The globals, and the tables that are open inside a function, the innermost first. -/
structure Scopes where
  globals : Table := []
  stack : List Table := []
  deriving DecidableEq, Repr

namespace Scopes

/-! ### Opening and closing -/

/-- Some table is open besides the globals. -/
def inFunction (s : Scopes) : Bool :=
  !s.stack.isEmpty

/-- The number of open tables. -/
def depth (s : Scopes) : Nat :=
  s.stack.length

/-- Start a function: a copy of the globals, and the function's own table. -/
def openFunction (s : Scopes) : Scopes :=
  { s with stack := [[], s.globals] }

/-- Start a block. -/
def openBlock (s : Scopes) : Scopes :=
  { s with stack := [] :: s.stack }

/-- Close the innermost table, if one is open. -/
def closeInnermost (s : Scopes) : Scopes :=
  { s with stack := s.stack.tail }

/-- Close all tables but the globals. -/
def closeAll (s : Scopes) : Scopes :=
  { s with stack := [] }

/-! ### Reading -/

/-- The tables in which a name is looked up, the innermost first; inside a function these are the open ones alone. -/
def visible (s : Scopes) : List Table :=
  match s.stack with
  | [] => [s.globals]
  | table :: outer => table :: outer

/-- The variable that a name means here. -/
def resolve (s : Scopes) (name : String) : Option Variable :=
  s.visible.findSome? (Table.find? · name)

/-- The type of the variable that a name means. -/
def typeOf (s : Scopes) (name : String) : Except Violation Ty :=
  match s.resolve name with
  | some v => .ok v.ty
  | none => .error .variableNotFound

/-- The value recorded for the variable that a name means. -/
def valueOf (s : Scopes) (name : String) : Except Violation (Option String) :=
  match s.resolve name with
  | some v => .ok v.value
  | none => .error .variableNotFound

/-! ### Writing

A call leaves its result, which may be a rule that it breaks, beside the tables as they are afterwards. -/

/-- Add a variable to the globals. -/
def declareGlobal (s : Scopes) (v : Variable) : Except Violation Unit × Scopes :=
  let (result, globals) := s.globals.insertUnique v
  (result, { s with globals })

/-- Add a variable to the innermost table. -/
def declare (s : Scopes) (v : Variable) : Except Violation Unit × Scopes :=
  match s.stack with
  | [] => s.declareGlobal v
  | table :: outer =>
    let (result, table) := table.insertUnique v
    (result, { s with stack := table :: outer })

/-- Look for a name in the tables, the innermost first, to change its variable. -/
def slotIn? (name : String) : (tables : List Table) → Option (Slot tables)
  | [] => none
  | table :: outer =>
    match table.slot? name with
    | some slot => some (slot.within (· :: outer))
    | none => (slotIn? name outer).map (·.within (table :: ·))

/-- Look for a name, to change the variable that it means. -/
def slot? (s : Scopes) (name : String) : Option (Slot s) :=
  if s.inFunction then (slotIn? name s.stack).map (·.within fun stack => { s with stack })
  else (s.globals.slot? name).map (·.within fun globals => { s with globals })

/-- Give a new value to the variable that a name means, unless it is final. -/
def assign (s : Scopes) (name value : String) : Except Violation Unit × Scopes :=
  match s.slot? name with
  | none => (.error .variableNotFound, s)
  | some slot =>
    if slot.held.isFinal then (.error .changeFinal, slot.replace slot.held)
    else (.ok (), slot.replace { slot.held with value := some value })

/-- The tables with a value recorded in the innermost one that has the name. -/
def recordIn (name value : String) : List Table → List Table
  | [] => []
  | table :: outer =>
    if (table.find? name).isSome then table.record name value :: outer else table :: recordIn name value outer

/-- The tables with a value recorded for the variable that a name means. -/
def record (s : Scopes) (name value : String) : Scopes :=
  match s.stack with
  | [] => { s with globals := s.globals.record name value }
  | table :: outer => { s with stack := recordIn name value (table :: outer) }

/-! ### What the operations do to the tables -/

variable (s : Scopes)

@[simp] theorem globals_openFunction : s.openFunction.globals = s.globals := rfl

@[simp] theorem globals_openBlock : s.openBlock.globals = s.globals := rfl

@[simp] theorem globals_closeInnermost : s.closeInnermost.globals = s.globals := rfl

@[simp] theorem globals_closeAll : s.closeAll.globals = s.globals := rfl

@[simp] theorem depth_openFunction : s.openFunction.depth = 2 := rfl

@[simp] theorem depth_openBlock : s.openBlock.depth = s.depth + 1 := rfl

@[simp] theorem depth_closeInnermost : s.closeInnermost.depth = s.depth - 1 := by simp [closeInnermost, depth]

@[simp] theorem depth_closeAll : s.closeAll.depth = 0 := rfl

/-- A block that is left leaves what was there before it. -/
@[simp] theorem closeInnermost_openBlock : s.openBlock.closeInnermost = s := rfl

/-- Outside functions a name means a global. -/
theorem resolve_of_stack_eq_nil (h : s.stack = []) (name : String) : s.resolve name = s.globals.find? name := by
  cases hf : s.globals.find? name <;> simp [resolve, visible, h, hf]

/-- At its start a function sees the globals as they are. -/
theorem resolve_openFunction (name : String) : s.openFunction.resolve name = s.globals.find? name := by
  cases h : s.globals.find? name <;> simp [resolve, visible, openFunction, List.findSome?_cons, h]

/-- A new block sees what was in sight before it. -/
theorem resolve_openBlock (h : s.inFunction = true) (name : String) :
    s.openBlock.resolve name = s.resolve name := by
  cases hs : s.stack with
  | nil => simp [inFunction, hs] at h
  | cons t ts => simp [resolve, visible, openBlock, hs, List.findSome?_cons]

/-- Recording in the innermost table that has the name shows where that name is looked up, and nowhere else. -/
theorem findSome?_recordIn (name value other : String) (tables : List Table) :
    (recordIn name value tables).findSome? (Table.find? · other) =
      if name = other then (tables.findSome? (Table.find? · other)).map fun v => { v with value := some value }
      else tables.findSome? (Table.find? · other) := by
  induction tables with
  | nil => simp [recordIn]
  | cons t ts ih =>
    rw [recordIn]
    split
    · next hn =>
      -- the name is looked up in the table where the value is recorded
      rw [List.findSome?_cons, List.findSome?_cons, Table.find?_record]
      by_cases ho : name = other
      · subst ho
        obtain ⟨v, hv⟩ := Option.isSome_iff_exists.mp hn
        simp [hv]
      · simp [ho]
    · next hn =>
      rw [List.findSome?_cons, List.findSome?_cons, ih]
      by_cases ho : name = other
      · subst ho
        have hnone : t.find? name = none := by simpa using hn
        simp [hnone]
      · simp [ho]

/-- A recorded value shows in what its name means, and in no other variable. -/
theorem resolve_record (name value other : String) :
    (s.record name value).resolve other =
      if name = other then (s.resolve other).map fun v => { v with value := some value } else s.resolve other := by
  cases hs : s.stack with
  | nil =>
    have hstack : (s.record name value).stack = [] := by simp [record, hs]
    have hglobals : (s.record name value).globals = s.globals.record name value := by simp [record, hs]
    rw [resolve_of_stack_eq_nil s hs, resolve_of_stack_eq_nil _ hstack, hglobals]
    exact Table.find?_record s.globals name value other
  | cons t ts =>
    have hrecord : s.record name value = { s with stack := recordIn name value (t :: ts) } := by simp [record, hs]
    have hvisible : s.visible = t :: ts := by simp [visible, hs]
    -- recording leaves as many tables as there were, so the open ones are still those looked at
    have hvisible' : (s.record name value).visible = recordIn name value (t :: ts) := by
      rw [hrecord]
      by_cases h : (t.find? name).isSome = true <;> simp [visible, recordIn, h]
    rw [resolve, resolve, hvisible, hvisible']
    exact findSome?_recordIn name value other (t :: ts)

/-! ### Two searches for one variable

A name is looked up by `resolve` where it is read and by `slot?` where its variable is to be changed. -/

theorem held_slotIn? (name : String) (tables : List Table) :
    (slotIn? name tables).map Slot.held = tables.findSome? (Table.find? · name) := by
  induction tables with
  | nil => rfl
  | cons t ts ih =>
    have hheld := t.held_slot? name
    rw [slotIn?, List.findSome?_cons, ← hheld]
    cases t.slot? name with
    | some slot => rfl
    | none =>
      rw [Option.map_map]
      exact ih

theorem replace_slotIn? {name : String} {tables : List Table} {slot : Slot tables}
    (h : slotIn? name tables = some slot) (value : String) :
    slot.replace { slot.held with value := some value } = recordIn name value tables := by
  induction tables with
  | nil => cases h
  | cons t ts ih =>
    have hheld := t.held_slot? name
    rw [slotIn?] at h
    rw [recordIn, ← hheld]
    cases ht : t.slot? name with
    | some inner =>
      rw [ht] at h
      cases h
      exact congrArg (· :: ts) (Table.replace_slot? ht value)
    | none =>
      rw [ht] at h
      obtain ⟨inner, hinner, rfl⟩ := Option.map_eq_some_iff.mp h
      exact congrArg (t :: ·) (ih hinner)

/-- Both searches come to the same variable. -/
theorem held_slot? (name : String) : (s.slot? name).map Slot.held = s.resolve name := by
  obtain ⟨globals, stack⟩ := s
  cases stack with
  | nil =>
    rw [resolve_of_stack_eq_nil _ rfl, ← globals.held_slot? name]
    exact Option.map_map ..
  | cons table outer =>
    exact (Option.map_map ..).trans (held_slotIn? name (table :: outer))

/-- A value that is put into the slot of a name is recorded for the variable that the name means. -/
theorem replace_slot? {slot : Slot s} {name : String} (h : s.slot? name = some slot) (value : String) :
    slot.replace { slot.held with value := some value } = s.record name value := by
  obtain ⟨globals, stack⟩ := s
  cases stack with
  | nil =>
    obtain ⟨inner, hinner, rfl⟩ := Option.map_eq_some_iff.mp h
    exact congrArg (Scopes.mk · []) (Table.replace_slot? hinner value)
  | cons table outer =>
    obtain ⟨inner, hinner, rfl⟩ := Option.map_eq_some_iff.mp h
    exact congrArg (Scopes.mk globals) (replace_slotIn? hinner value)

/-! ### What the calls do -/

variable {s}

theorem declareGlobal_cases (s : Scopes) (v : Variable) :
    s.globals.find? v.name ≠ none ∧ s.declareGlobal v = (.error .variableExists, s) ∨
    s.globals.find? v.name = none ∧
      s.declareGlobal v = (.ok (), { s with globals := (v.name, v) :: s.globals }) := by
  obtain ⟨hknown, h⟩ | ⟨hfresh, h⟩ := s.globals.insertUnique_cases v
  · exact .inl ⟨hknown, by rw [declareGlobal, h]⟩
  · exact .inr ⟨hfresh, by rw [declareGlobal, h]⟩

/-- Outside functions a declaration is one of a global. -/
theorem declare_of_nil (hs : s.stack = []) (v : Variable) : s.declare v = s.declareGlobal v := by
  simp only [declare, hs]

theorem declare_of_cons {table : Table} {outer : List Table} (hs : s.stack = table :: outer) (v : Variable) :
    table.find? v.name ≠ none ∧ s.declare v = (.error .variableExists, s) ∨
    table.find? v.name = none ∧
      s.declare v = (.ok (), { s with stack := ((v.name, v) :: table) :: outer }) := by
  obtain ⟨globals, stack⟩ := s
  cases hs
  obtain ⟨hknown, h⟩ | ⟨hfresh, h⟩ := table.insertUnique_cases v
  · exact .inl ⟨hknown, by simp only [declare, h]⟩
  · exact .inr ⟨hfresh, by simp only [declare, h]⟩

theorem assign_eq_variableNotFound {name : String} (hv : s.resolve name = none) (value : String) :
    s.assign name value = (.error .variableNotFound, s) := by
  have hslot : s.slot? name = none := Option.map_eq_none_iff.mp ((s.held_slot? name).trans hv)
  simp only [assign, hslot]

theorem assign_eq_changeFinal {name : String} {v : Variable} (hv : s.resolve name = some v) (hfinal : v.isFinal = true)
    (value : String) : s.assign name value = (.error .changeFinal, s) := by
  obtain ⟨slot, hslot, rfl⟩ := Option.map_eq_some_iff.mp ((s.held_slot? name).trans hv)
  simp only [assign, hslot, hfinal, if_true, slot.replace_held]

theorem assign_eq_ok {name : String} {v : Variable} (hv : s.resolve name = some v) (hopen : v.isFinal = false)
    (value : String) : s.assign name value = (.ok (), s.record name value) := by
  obtain ⟨slot, hslot, rfl⟩ := Option.map_eq_some_iff.mp ((s.held_slot? name).trans hv)
  rw [← replace_slot? s hslot value]
  simp only [assign, hslot, hopen, Bool.false_eq_true, if_false]

/-- An assignment records the value for the variable that the name means, unless there is none or it is final. -/
theorem assign_cases (s : Scopes) (name value : String) :
    s.resolve name = none ∧ s.assign name value = (.error .variableNotFound, s) ∨
    ∃ v, s.resolve name = some v ∧
      (v.isFinal = true ∧ s.assign name value = (.error .changeFinal, s) ∨
        v.isFinal = false ∧ s.assign name value = (.ok (), s.record name value)) := by
  cases hv : s.resolve name with
  | none => exact .inl ⟨rfl, assign_eq_variableNotFound hv value⟩
  | some v =>
    refine .inr ⟨v, rfl, ?_⟩
    cases hfinal : v.isFinal with
    | true => exact .inl ⟨rfl, assign_eq_changeFinal hv hfinal value⟩
    | false => exact .inr ⟨rfl, assign_eq_ok hv hfinal value⟩

theorem snd_assign_of_ok {name value : String} (h : (s.assign name value).1 = .ok ()) :
    (s.assign name value).2 = s.record name value := by
  obtain ⟨-, hassign⟩ | ⟨v, -, ⟨-, hassign⟩ | ⟨-, hassign⟩⟩ := s.assign_cases name value
  · rw [hassign] at h
    cases h
  · rw [hassign] at h
    cases h
  · rw [hassign]

/-! A call that breaks a rule leaves all tables as they were. -/

theorem snd_declareGlobal_of_error {v : Variable} {e : Violation} (h : (s.declareGlobal v).1 = .error e) :
    (s.declareGlobal v).2 = s := by
  obtain ⟨-, hdeclare⟩ | ⟨-, hdeclare⟩ := s.declareGlobal_cases v
  · rw [hdeclare]
  · rw [hdeclare] at h
    cases h

theorem snd_declare_of_error {v : Variable} {e : Violation} (h : (s.declare v).1 = .error e) :
    (s.declare v).2 = s := by
  cases hs : s.stack with
  | nil =>
    rw [declare_of_nil hs] at h ⊢
    exact snd_declareGlobal_of_error h
  | cons table outer =>
    obtain ⟨-, hdeclare⟩ | ⟨-, hdeclare⟩ := declare_of_cons hs v
    · rw [hdeclare]
    · rw [hdeclare] at h
      cases h

theorem snd_assign_of_error {name value : String} {e : Violation} (h : (s.assign name value).1 = .error e) :
    (s.assign name value).2 = s := by
  obtain ⟨-, hassign⟩ | ⟨v, -, ⟨-, hassign⟩ | ⟨-, hassign⟩⟩ := s.assign_cases name value
  · rw [hassign]
  · rw [hassign]
  · rw [hassign] at h
    cases h

end Scopes

end LineCheck
