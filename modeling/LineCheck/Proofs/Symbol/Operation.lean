import LineCheck.Proofs.Symbol.Layers

/-!
# LineCheck.Proofs.Symbol.Operation — operations on the variables in sight, in any order

The passes call the operations on `Scopes` in a fixed discipline.  Here an `Operation` is one such call as data, and
`Scopes.after` is what any sequence of calls leaves, legal or not.  A call that breaks a rule changes nothing
(`Operation.next_of_error`).

A table is known by its `Scopes.Place`, for its contents change.  `Operation.ends` tells which calls take away the
table at a place, and `Operation.Changes` says once what any other call may do to it (`Operation.exists_changes`):
nothing, or one new variable under a name that the table does not have, or a value for a variable of the table that is
not final.
-/

namespace LineCheck

/-- A call of one of the operations on the variables in sight. -/
inductive Operation where
  | openFunction
  | openBlock
  | closeInnermost
  | closeAll
  | declareGlobal (v : Variable)
  | declare (v : Variable)
  | assign (name value : String)
  | resolve (name : String)
  | typeOf (name : String)
  | valueOf (name : String)
  deriving DecidableEq, Repr

namespace Operation

/-- What the call leaves: the rule that it breaks, if it breaks one, and the variables as they are then. -/
def perform (op : Operation) (s : Scopes) : Except Violation Unit × Scopes :=
  match op with
  | openFunction => (.ok (), s.openFunction)
  | openBlock => (.ok (), s.openBlock)
  | closeInnermost => (.ok (), s.closeInnermost)
  | closeAll => (.ok (), s.closeAll)
  | declareGlobal v => s.declareGlobal v
  | declare v => s.declare v
  | assign name value => s.assign name value
  | resolve _ => (.ok (), s)
  | typeOf name => ((s.typeOf name).map fun _ => (), s)
  | valueOf name => ((s.valueOf name).map fun _ => (), s)

/-- The variables after the call, whether it breaks a rule or not. -/
def next (op : Operation) (s : Scopes) : Scopes :=
  (op.perform s).2

/-- The call opens and closes no table, and does not name the globals. -/
def isLocal : Operation → Bool
  | declare _ => true
  | assign _ _ => true
  | resolve _ => true
  | typeOf _ => true
  | valueOf _ => true
  | _ => false

end Operation

/-- The variables after the calls, one after the other. -/
def Scopes.after (s : Scopes) (ops : List Operation) : Scopes :=
  ops.foldl (fun s op => op.next s) s

/-- Where a table stands: with the globals, or so many open tables above the outermost one. -/
inductive Scopes.Place where
  | globals
  | level (n : Nat)
  deriving DecidableEq, Repr

/-- The table at the place, if there is one. -/
def Scopes.table? (s : Scopes) : Scopes.Place → Option Table
  | .globals => some s.globals
  | .level n => s.stack.reverse[n]?

/-- The call takes away the table at the place: it is closed, or gives way to a new copy of the globals. -/
def Operation.ends (op : Operation) (s : Scopes) : Scopes.Place → Bool
  | .globals => false
  | .level n =>
    match op with
    | openFunction => true
    | closeInnermost => n + 1 == s.depth
    | closeAll => true
    | _ => false

/-- No call takes away the table at the place. -/
def Scopes.Place.Lasts (p : Scopes.Place) (s : Scopes) : List Operation → Prop
  | [] => True
  | op :: ops => op.ends s p = false ∧ p.Lasts (op.next s) ops

/-- What the call may do to a table that it does not take away. -/
inductive Operation.Changes (op : Operation) (t : Table) : Table → Prop where
  | nothing : Changes op t t
  | declared {v : Variable} (call : op = .declareGlobal v ∨ op = .declare v) (fresh : t.find? v.name = none) :
      Changes op t ((v.name, v) :: t)
  | assigned {name value : String} {v : Variable} (call : op = .assign name value) (found : t.find? name = some v)
      (changeable : v.isFinal = false) : Changes op t (t.record name value)

/-! ### Sequences -/

namespace Scopes

variable (s : Scopes) (op : Operation) (ops more : List Operation)

@[simp] theorem after_nil : s.after [] = s := rfl

@[simp] theorem after_cons : s.after (op :: ops) = (op.next s).after ops := rfl

@[simp] theorem after_append : s.after (ops ++ more) = (s.after ops).after more :=
  List.foldl_append

end Scopes

/-! ### Single calls -/

namespace Operation

variable {op : Operation} {s s' : Scopes}

@[simp] theorem next_openFunction : openFunction.next s = s.openFunction := rfl

@[simp] theorem next_openBlock : openBlock.next s = s.openBlock := rfl

@[simp] theorem next_closeInnermost : closeInnermost.next s = s.closeInnermost := rfl

@[simp] theorem next_closeAll : closeAll.next s = s.closeAll := rfl

/-- Reading changes nothing. -/
@[simp] theorem next_resolve (name : String) : (resolve name).next s = s := rfl

@[simp] theorem next_typeOf (name : String) : (typeOf name).next s = s := rfl

@[simp] theorem next_valueOf (name : String) : (valueOf name).next s = s := rfl

/-- A call that breaks a rule leaves the globals and all open tables as they were. -/
theorem next_of_error {e : Violation} (h : (op.perform s).1 = .error e) : op.next s = s := by
  cases op with
  | declareGlobal v => exact Scopes.snd_declareGlobal_of_error h
  | declare v => exact Scopes.snd_declare_of_error h
  | assign name value => exact Scopes.snd_assign_of_error h
  | resolve name => rfl
  | typeOf name => rfl
  | valueOf name => rfl
  | _ => cases h

/-- A variable that is declared in the globals is new there. -/
theorem next_declareGlobal (v : Variable) (s : Scopes) :
    (declareGlobal v).next s = s ∨
      s.globals.find? v.name = none ∧ (declareGlobal v).next s = { s with globals := (v.name, v) :: s.globals } := by
  obtain ⟨-, h⟩ | ⟨hfresh, h⟩ := s.declareGlobal_cases v
  · exact .inl (congrArg Prod.snd h)
  · exact .inr ⟨hfresh, congrArg Prod.snd h⟩

/-- Outside functions a declaration is one of a global. -/
theorem next_declare_of_nil (v : Variable) (hs : s.stack = []) : (declare v).next s = (declareGlobal v).next s :=
  congrArg Prod.snd (Scopes.declare_of_nil hs v)

/-- Inside a function the variable is new in the innermost table. -/
theorem next_declare_of_cons (v : Variable) {top : Table} {outer : List Table} (hs : s.stack = top :: outer) :
    (declare v).next s = s ∨
      top.find? v.name = none ∧ (declare v).next s = { s with stack := ((v.name, v) :: top) :: outer } := by
  obtain ⟨-, h⟩ | ⟨hfresh, h⟩ := Scopes.declare_of_cons hs v
  · exact .inl (congrArg Prod.snd h)
  · exact .inr ⟨hfresh, congrArg Prod.snd h⟩

/-- A value is recorded for a variable that is not final. -/
theorem next_assign (name value : String) (s : Scopes) :
    (assign name value).next s = s ∨
      ∃ v, s.resolve name = some v ∧ v.isFinal = false ∧ (assign name value).next s = s.record name value := by
  obtain ⟨-, h⟩ | ⟨v, hv, ⟨-, h⟩ | ⟨hopen, h⟩⟩ := s.assign_cases name value
  · exact .inl (congrArg Prod.snd h)
  · exact .inl (congrArg Prod.snd h)
  · exact .inr ⟨v, hv, hopen, congrArg Prod.snd h⟩

/-! ### What a call does to the tables -/

/-- Every call may work on the globals, and takes nothing away from them. -/
theorem changes_globals (op : Operation) (s : Scopes) : op.Changes s.globals (op.next s).globals := by
  have hnew : ∀ v, (op = declareGlobal v ∨ op = declare v) →
      op.Changes s.globals ((declareGlobal v).next s).globals := by
    intro v hop
    rcases next_declareGlobal v s with h | ⟨hfresh, h⟩
    · rw [h]; exact .nothing
    · rw [h]; exact .declared hop hfresh
  cases op with
  | openFunction => exact .nothing
  | openBlock => exact .nothing
  | closeInnermost => exact .nothing
  | closeAll => exact .nothing
  | declareGlobal v => exact hnew v (.inl rfl)
  | declare v =>
    cases hs : s.stack with
    | nil => rw [next_declare_of_nil v hs]; exact hnew v (.inr rfl)
    | cons top outer =>
      rcases next_declare_of_cons v hs with h | ⟨-, h⟩ <;> rw [h] <;> exact .nothing
  | assign name value =>
    rcases next_assign name value s with h | ⟨v, hv, hopen, h⟩
    · rw [h]; exact .nothing
    · rw [h]
      by_cases hs : s.stack = []
      · rw [Scopes.resolve_of_stack_eq_nil s hs] at hv
        have hrecord : (s.record name value).globals = s.globals.record name value := by simp [Scopes.record, hs]
        rw [hrecord]
        exact .assigned rfl hv hopen
      · rw [(s.keeps_record name value).globals hs]
        exact .nothing
  | resolve name => exact .nothing
  | typeOf name => exact .nothing
  | valueOf name => exact .nothing

/-- Of the open tables a value reaches the first that has the name, where it is the name's variable that changes. -/
theorem changes_recordIn {name value : String} {v : Variable} (hopen : v.isFinal = false) :
    ∀ {ts : List Table}, ts.findSome? (Table.find? · name) = some v →
      List.Forall₂ (assign name value).Changes ts (Scopes.recordIn name value ts)
  | [], h => by simp at h
  | t :: ts, h => by
    rw [Scopes.recordIn]
    cases ht : t.find? name with
    | some w =>
      have hw : w = v := by simpa [ht] using h
      subst hw
      exact .cons (.assigned rfl ht hopen) (List.forall₂_same.mpr fun _ _ => .nothing)
    | none => exact .cons .nothing (changes_recordIn hopen (by simpa [ht] using h))

/-- A local call leaves as many tables open as there were, and changes them one by one. -/
theorem changes_stack (h : op.isLocal = true) (s : Scopes) : List.Forall₂ op.Changes s.stack (op.next s).stack := by
  have hsame : ∀ ts : List Table, List.Forall₂ op.Changes ts ts := fun ts => List.forall₂_same.mpr fun _ _ => .nothing
  cases op with
  | declare v =>
    cases hs : s.stack with
    | nil =>
      rw [next_declare_of_nil v hs]
      rcases next_declareGlobal v s with h | ⟨-, h⟩ <;> rw [h, hs] <;> exact .nil
    | cons top outer =>
      rcases next_declare_of_cons v hs with h | ⟨hfresh, h⟩
      · rw [h, hs]; exact hsame _
      · rw [h]; exact .cons (.declared (.inr rfl) hfresh) (hsame outer)
  | assign name value =>
    rcases next_assign name value s with h | ⟨v, hv, hopen, h⟩
    · rw [h]; exact hsame _
    · rw [h]
      cases hs : s.stack with
      | nil => simp [Scopes.record, hs]
      | cons top outer =>
        have hstack : (s.record name value).stack = Scopes.recordIn name value (top :: outer) := by
          simp [Scopes.record, hs]
        rw [hstack]
        exact changes_recordIn hopen (by simpa [Scopes.resolve, Scopes.visible, hs] using hv)
  | resolve name => exact hsame _
  | typeOf name => exact hsame _
  | valueOf name => exact hsame _
  | _ => cases h

/-- Inside a function a local call keeps to the open tables. -/
theorem keeps_next (h : op.isLocal = true) (s : Scopes) : s.Keeps (op.next s) := by
  refine ⟨(changes_stack h s).length_eq.symm, fun hs => ?_⟩
  cases op with
  | declare v =>
    obtain ⟨top, outer, hcons⟩ := List.exists_cons_of_ne_nil hs
    rcases next_declare_of_cons v hcons with h | ⟨-, h⟩ <;> rw [h]
  | assign name value =>
    rcases next_assign name value s with h | ⟨v, -, -, h⟩
    · rw [h]
    · rw [h]; exact (s.keeps_record name value).globals hs
  | resolve name => rfl
  | typeOf name => rfl
  | valueOf name => rfl
  | _ => cases h

/-- Two lists that are related item by item are so when they are counted from the end. -/
theorem exists_getElem?_reverse {α β : Type} {R : α → β → Prop} {as : List α} {bs : List β} (h : List.Forall₂ R as bs)
    {n : Nat} {a : α} (ha : as.reverse[n]? = some a) : ∃ b, bs.reverse[n]? = some b ∧ R a b := by
  have hrev := List.forall₂_reverse_iff.mpr h
  obtain ⟨hn, rfl⟩ := List.getElem?_eq_some_iff.mp ha
  have hn' : n < bs.reverse.length := hrev.length_eq ▸ hn
  exact ⟨bs.reverse[n], List.getElem?_eq_getElem hn', hrev.get hn hn'⟩

/-- A table that is not taken away stands at its place still, perhaps with a variable or a value more. -/
theorem exists_changes {p : Scopes.Place} {t : Table} (ht : s.table? p = some t) (hp : op.ends s p = false) :
    ∃ t', (op.next s).table? p = some t' ∧ op.Changes t t' := by
  cases p with
  | globals =>
    cases ht
    exact ⟨_, rfl, changes_globals op s⟩
  | level n =>
    change s.stack.reverse[n]? = some t at ht
    by_cases hlocal : op.isLocal = true
    · exact exists_getElem?_reverse (changes_stack hlocal s) ht
    · cases op with
      | openFunction => cases hp
      | closeAll => cases hp
      | openBlock =>
        -- the new table stands above all others
        have hn := (List.getElem?_eq_some_iff.mp ht).1
        refine ⟨t, ?_, .nothing⟩
        change ([] :: s.stack).reverse[n]? = some t
        rw [List.reverse_cons, List.getElem?_append_left hn, ht]
      | closeInnermost =>
        refine ⟨t, ?_, .nothing⟩
        change s.stack.tail.reverse[n]? = some t
        cases hs : s.stack with
        | nil => simp [hs] at ht
        | cons top outer =>
          -- the table is not the innermost one
          have hn : n ≠ outer.length := by simpa [ends, Scopes.depth, hs] using hp
          have hlt := (List.getElem?_eq_some_iff.mp ht).1
          rw [List.length_reverse, hs, List.length_cons] at hlt
          rw [hs, List.reverse_cons, List.getElem?_append_left (by rw [List.length_reverse]; omega)] at ht
          exact ht
      | declareGlobal v =>
        refine ⟨t, ?_, .nothing⟩
        rcases next_declareGlobal v s with h | ⟨-, h⟩ <;> rw [h] <;> exact ht
      | _ => exact absurd rfl hlocal

end Operation

end LineCheck
