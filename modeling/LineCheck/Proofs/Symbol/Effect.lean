import LineCheck.Proofs.Symbol.Operation
import LineCheck.Rules

/-!
# LineCheck.Proofs.Symbol.Effect — what a write does to the tables, entry by entry

A state is what each table has under each name (`Scopes.lookup?`) and how many tables are open.  A name means the entry
of the innermost table that has it (`Scopes.home?`, `Scopes.resolve_eq_lookup?`).  That table is searched for once when
a name is read (`Scopes.resolve`) and once more when its variable is to be changed (`Scopes.slot?`); both searches come
to the same variable (`Scopes.held_slot?`), and a value that is put into the slot shows at its place alone
(`Scopes.lookup?_record`).  So a legal write sets one entry and leaves the rest of the state alone (`Scopes.SetsOnly`),
and a call that breaks a rule leaves all of it alone (`Scopes.exact_effects`).
-/

namespace LineCheck

/-! ### Tables inside one another -/

namespace Table

variable {name : String} {ts : List Table} {n : Nat}

/-- The table that has `n` of the tables around it, where the innermost one comes first. -/
def atLevel (n : Nat) : List Table → Option Table
  | [] => none
  | t :: outer => if outer.length = n then some t else atLevel n outer

/-- How many tables the innermost one that has the name has around it. -/
def levelOf (name : String) : List Table → Option Nat
  | [] => none
  | t :: outer => if (t.find? name).isSome then some outer.length else levelOf name outer

theorem getElem?_reverse (ts : List Table) (n : Nat) : ts.reverse[n]? = atLevel n ts := by
  induction ts with
  | nil => rfl
  | cons t ts ih =>
    rw [List.reverse_cons, atLevel, ← ih]
    split
    · next h => rw [← h, ← List.length_reverse, List.getElem?_concat_length]
    · next h =>
      rcases Nat.lt_or_gt_of_ne h with hlong | hshort
      · rw [List.getElem?_eq_none (by simp; omega), List.getElem?_eq_none (by simp; omega)]
      · rw [List.getElem?_append_left (by rwa [List.length_reverse])]

theorem levelOf_lt (h : levelOf name ts = some n) : n < ts.length := by
  induction ts with
  | nil => cases h
  | cons t ts ih =>
    rw [levelOf] at h
    split at h
    · cases h
      exact Nat.lt_succ_self _
    · exact Nat.lt_succ_of_lt (ih h)

/-- The first table that has the name, from the inside out, is the one at its level. -/
theorem findSome?_eq (name : String) (ts : List Table) :
    ts.findSome? (find? · name) = (levelOf name ts).bind fun n => (atLevel n ts).bind (find? · name) := by
  induction ts with
  | nil => rfl
  | cons t ts ih =>
    rw [List.findSome?_cons, levelOf]
    cases ht : t.find? name with
    | some v => simp [atLevel, ht]
    | none =>
      simp only [Option.isSome_none, Bool.false_eq_true, if_false, ih]
      cases hlevel : levelOf name ts with
      | none => rfl
      | some n =>
        have hne : ts.length ≠ n := (Nat.ne_of_lt (levelOf_lt hlevel)).symm
        simp [atLevel, hne]

/-- A value is recorded in the table at the level of its name, and in no other. -/
theorem atLevel_recordIn (name value : String) (ts : List Table) (n : Nat) :
    atLevel n (Scopes.recordIn name value ts) =
      if levelOf name ts = some n then (atLevel n ts).map (·.record name value) else atLevel n ts := by
  induction ts with
  | nil => simp [Scopes.recordIn, levelOf]
  | cons t ts ih =>
    rw [Scopes.recordIn, levelOf]
    split
    · -- the innermost table has the name
      by_cases hn : ts.length = n <;> simp [atLevel, hn]
    · by_cases hn : ts.length = n
      · have hlevel : levelOf name ts ≠ some n := fun h => Nat.ne_of_lt (levelOf_lt h) hn.symm
        simp [atLevel, Scopes.length_recordIn, hn, hlevel]
      · simp [atLevel, Scopes.length_recordIn, hn, ih]

theorem isSome_find?_record (t : Table) (name value other : String) :
    ((t.record name value).find? other).isSome = (t.find? other).isSome := by
  rw [find?_record]
  split
  · exact Option.isSome_map
  · rfl

/-- Recording a value leaves every name in the tables that have it. -/
theorem levelOf_recordIn (name value other : String) (ts : List Table) :
    levelOf other (Scopes.recordIn name value ts) = levelOf other ts := by
  induction ts with
  | nil => rfl
  | cons t ts ih =>
    rw [Scopes.recordIn]
    split
    · rw [levelOf, levelOf, isSome_find?_record]
    · rw [levelOf, levelOf, Scopes.length_recordIn, ih]

end Table

namespace Scopes

/-! ### Entries and their places -/

/-- What the table at the place has under the name. -/
def lookup? (s : Scopes) (p : Place) (name : String) : Option Variable :=
  (s.table? p).bind (·.find? name)

/-- The place of the innermost open table that has the name, or, where none is open, that of the globals. -/
def home? (s : Scopes) (name : String) : Option Place :=
  match s.stack with
  | [] => (s.globals.find? name).map fun _ => .globals
  | t :: outer => (Table.levelOf name (t :: outer)).map .level

/-- The place where a variable is declared: the innermost open table, or, where none is open, the globals. -/
def innermost (s : Scopes) : Place :=
  match s.stack with
  | [] => .globals
  | _ :: outer => .level outer.length

/-- The second state has the variable at the place under the name, and is the same as the first one otherwise. -/
structure SetsOnly (s s' : Scopes) (p : Place) (name : String) (v : Variable) : Prop where
  depth : s'.depth = s.depth
  here : s'.lookup? p name = some v
  elsewhere : ∀ q other, (q, other) ≠ (p, name) → s'.lookup? q other = s.lookup? q other

variable {s s' : Scopes} {name : String}

theorem table?_level (s : Scopes) (n : Nat) : s.table? (.level n) = Table.atLevel n s.stack :=
  Table.getElem?_reverse s.stack n

theorem home?_of_nil (h : s.stack = []) (name : String) :
    s.home? name = (s.globals.find? name).map fun _ => .globals := by
  simp [home?, h]

theorem home?_of_ne_nil (h : s.stack ≠ []) (name : String) :
    s.home? name = (Table.levelOf name s.stack).map .level := by
  obtain ⟨t, outer, hs⟩ := List.exists_cons_of_ne_nil h
  simp [home?, hs]

theorem resolve_of_ne_nil (h : s.stack ≠ []) (name : String) :
    s.resolve name = s.stack.findSome? (Table.find? · name) := by
  obtain ⟨t, outer, hs⟩ := List.exists_cons_of_ne_nil h
  simp [resolve, visible, hs]

/-- A name means the entry at its home. -/
theorem resolve_eq_lookup? (s : Scopes) (name : String) : s.resolve name = (s.home? name).bind (s.lookup? · name) := by
  by_cases hs : s.stack = []
  · rw [resolve_of_stack_eq_nil s hs, home?_of_nil hs]
    cases hv : s.globals.find? name with
    | none => rfl
    | some v => exact hv.symm
  · rw [resolve_of_ne_nil hs, home?_of_ne_nil hs, Table.findSome?_eq, Option.bind_map]
    simp [Function.comp_def, lookup?, table?_level]

theorem exists_home?_of_resolve {v : Variable} (h : s.resolve name = some v) :
    ∃ p, s.home? name = some p ∧ s.lookup? p name = some v := by
  rw [resolve_eq_lookup?] at h
  exact Option.bind_eq_some_iff.mp h

/-! ### A value that is recorded -/

theorem record_of_nil (h : s.stack = []) (name value : String) :
    s.record name value = { s with globals := s.globals.record name value } := by
  simp [record, h]

theorem record_of_ne_nil (h : s.stack ≠ []) (name value : String) :
    s.record name value = { s with stack := recordIn name value s.stack } := by
  obtain ⟨t, outer, hs⟩ := List.exists_cons_of_ne_nil h
  simp [record, hs]

/-- Recording goes to the table where the name is found when it is read, and to no other. -/
theorem table?_record (s : Scopes) (name value : String) (p : Place) :
    (s.record name value).table? p =
      if s.home? name = some p then (s.table? p).map (·.record name value) else s.table? p := by
  by_cases hs : s.stack = []
  · rw [record_of_nil hs, home?_of_nil hs]
    cases p with
    | level n => simp [table?, hs]
    | globals =>
      cases hv : s.globals.find? name with
      | none => simp [table?, Table.record_of_find?_eq_none hv]
      | some v => simp [table?]
  · rw [record_of_ne_nil hs, home?_of_ne_nil hs]
    cases p with
    | globals => simp [table?]
    | level n =>
      rw [table?_level, table?_level, Table.atLevel_recordIn]
      simp

theorem lookup?_record (s : Scopes) (name value : String) (p : Place) (other : String) :
    (s.record name value).lookup? p other =
      if s.home? name = some p ∧ name = other then (s.lookup? p other).map fun v => { v with value := some value }
      else s.lookup? p other := by
  rw [lookup?, lookup?, table?_record]
  by_cases hp : s.home? name = some p
  · rw [if_pos hp]
    cases s.table? p with
    | none => simp
    | some t => simp [Table.find?_record, hp]
  · rw [if_neg hp, if_neg fun h => hp h.1]

/-- The entry that the name means gets the value, and nothing else happens. -/
theorem setsOnly_record {p : Place} {v : Variable} (hp : s.home? name = some p) (hv : s.lookup? p name = some v)
    (value : String) : s.SetsOnly (s.record name value) p name { v with value := some value } := by
  refine ⟨(s.keeps_record _ value).depth, ?_, ?_⟩
  · rw [lookup?_record, if_pos ⟨hp, rfl⟩, hv]
    rfl
  · intro q other hne
    rw [lookup?_record, if_neg]
    rintro ⟨hq, rfl⟩
    rw [hp] at hq
    cases hq
    exact hne rfl

/-! ### The single calls -/

/-- One more variable in the table at the place, under a name that is new there. -/
theorem setsOnly_of_table? {p : Place} {t : Table} {v : Variable} (hdepth : s'.depth = s.depth)
    (ht : s.table? p = some t) (ht' : s'.table? p = some ((v.name, v) :: t))
    (helse : ∀ q, q ≠ p → s'.table? q = s.table? q) : s.SetsOnly s' p v.name v := by
  refine ⟨hdepth, ?_, ?_⟩
  · rw [lookup?, ht']
    exact (Table.find?_cons v.name v t v.name).trans (if_pos rfl)
  · intro q other hne
    rw [lookup?, lookup?]
    by_cases hq : q = p
    · subst hq
      have hname : v.name ≠ other := fun h => hne (by rw [h])
      rw [ht', ht]
      exact (Table.find?_cons v.name v t other).trans (if_neg hname)
    · rw [helse q hq]

/-- A global is declared unless the globals have its name. -/
theorem declareGlobal_sets (s : Scopes) (v : Variable) :
    s.lookup? .globals v.name ≠ none ∧ (s.declareGlobal v).1 = .error .variableExists ∨
    s.lookup? .globals v.name = none ∧ (s.declareGlobal v).1 = .ok () ∧
      s.SetsOnly (s.declareGlobal v).2 .globals v.name v := by
  obtain ⟨hknown, h⟩ | ⟨hfresh, h⟩ := s.declareGlobal_cases v
  · exact .inl ⟨hknown, congrArg Prod.fst h⟩
  · refine .inr ⟨hfresh, congrArg Prod.fst h, ?_⟩
    rw [h]
    refine setsOnly_of_table? rfl rfl rfl fun q hq => ?_
    cases q with
    | globals => exact absurd rfl hq
    | level n => rfl

/-- A variable is declared unless the innermost table has its name. -/
theorem declare_sets (s : Scopes) (v : Variable) :
    s.lookup? s.innermost v.name ≠ none ∧ (s.declare v).1 = .error .variableExists ∨
    s.lookup? s.innermost v.name = none ∧ (s.declare v).1 = .ok () ∧
      s.SetsOnly (s.declare v).2 s.innermost v.name v := by
  cases hs : s.stack with
  | nil =>
    have hinner : s.innermost = .globals := by simp [innermost, hs]
    rw [hinner, declare_of_nil hs]
    exact s.declareGlobal_sets v
  | cons table outer =>
    have hinner : s.innermost = .level outer.length := by simp [innermost, hs]
    have htable : s.table? (.level outer.length) = some table := by simp [table?_level, hs, Table.atLevel]
    have hentry : s.lookup? (.level outer.length) v.name = table.find? v.name := by rw [lookup?, htable]; rfl
    rw [hinner, hentry]
    obtain ⟨hknown, h⟩ | ⟨hfresh, h⟩ := declare_of_cons hs v
    · exact .inl ⟨hknown, congrArg Prod.fst h⟩
    · refine .inr ⟨hfresh, congrArg Prod.fst h, ?_⟩
      rw [h]
      refine setsOnly_of_table? (by simp [depth, hs]) htable (by simp [table?_level, Table.atLevel]) fun q hq => ?_
      cases q with
      | globals => rfl
      | level n =>
        have hn : outer.length ≠ n := fun hn => hq (by rw [hn])
        simp [table?_level, hs, Table.atLevel, hn]

/-! ### All of them -/

/-- In any state `assign` fails just where `resolve` gives nothing or a final variable, and else sets the entry at
`home?` alone.  `declareGlobal` and `declare` fail just where their table has the name, and else add one entry.  An
`Operation` that fails leaves the state, and the `assign` in `Assignment.applyTo` never fails. -/
theorem exact_effects (s : Scopes) :
    (∀ name value,
      ((s.assign name value).1 = .ok () ↔ ∃ v, s.resolve name = some v ∧ v.isFinal = false) ∧
      ((s.assign name value).1 = .error .variableNotFound ↔ s.resolve name = none) ∧
      ((s.assign name value).1 = .error .changeFinal ↔ ∃ v, s.resolve name = some v ∧ v.isFinal = true) ∧
      ((s.assign name value).1 = .ok () →
        ∃ p v, s.home? name = some p ∧ s.lookup? p name = some v ∧ s.resolve name = some v ∧
          (s.assign name value).2.resolve name = some { v with value := some value } ∧
          s.SetsOnly (s.assign name value).2 p name { v with value := some value })) ∧
    (∀ v,
      ((s.declareGlobal v).1 = .error .variableExists ↔ s.lookup? .globals v.name ≠ none) ∧
      (s.lookup? .globals v.name = none →
        (s.declareGlobal v).1 = .ok () ∧ s.SetsOnly (s.declareGlobal v).2 .globals v.name v)) ∧
    (∀ v,
      ((s.declare v).1 = .error .variableExists ↔ s.lookup? s.innermost v.name ≠ none) ∧
      (s.lookup? s.innermost v.name = none →
        (s.declare v).1 = .ok () ∧ s.SetsOnly (s.declare v).2 s.innermost v.name v)) ∧
    (∀ (op : Operation) e, (op.perform s).1 = .error e → (op.perform s).2 = s) ∧
    ∀ (a : Assignment) v, s.resolve a.name = some v → v.isFinal = false → a.value.fits v.ty s = true →
      ∃ s', s.assign a.name a.value.text = (.ok (), s') ∧ a.applyTo s = (.ok (), s') := by
  refine ⟨fun name value => ?_, fun v => ?_, fun v => ?_, fun op e => Operation.next_of_error, ?_⟩
  · obtain ⟨hnone, hassign⟩ | ⟨v, hv, ⟨hfinal, hassign⟩ | ⟨hopen, hassign⟩⟩ := s.assign_cases name value
    · simp [hnone, hassign]
    · simp [hv, hassign, hfinal]
    · refine ⟨by simp [hv, hassign, hopen], by simp [hv, hassign], by simp [hv, hassign, hopen], fun _ => ?_⟩
      obtain ⟨p, hp, hentry⟩ := exists_home?_of_resolve hv
      rw [hassign]
      refine ⟨p, v, hp, hentry, hv, ?_, setsOnly_record hp hentry value⟩
      rw [resolve_record, if_pos rfl, hv]
      rfl
  · obtain ⟨hhas, herr⟩ | ⟨hfresh, hok, hsets⟩ := s.declareGlobal_sets v
    · exact ⟨iff_of_true herr hhas, fun h => absurd h hhas⟩
    · exact ⟨by simp [hok, hfresh], fun _ => ⟨hok, hsets⟩⟩
  · obtain ⟨hhas, herr⟩ | ⟨hfresh, hok, hsets⟩ := s.declare_sets v
    · exact ⟨iff_of_true herr hhas, fun h => absurd h hhas⟩
    · exact ⟨by simp [hok, hfresh], fun _ => ⟨hok, hsets⟩⟩
  · intro a v hv hopen hfits
    exact ⟨_, assign_eq_ok hv hopen _, Assignment.applyTo_eq_ok hv hopen hfits⟩

/-- Three variables of one name: the assignment reaches that of the function's own table, under an open block and above
the copy of the globals.  The final one is not assigned to, and is hidden by one that the block declares. -/
theorem exact_effects_shadowed :
    let globals : Table := [("x", ⟨"x", .int, some "1", false⟩), ("c", ⟨"c", .int, some "1", true⟩)]
    let s : Scopes := ⟨globals, [[], [("x", ⟨"x", .double, none, false⟩)], globals]⟩
    let assigned := s.assign "x" "2"
    let declared := s.declare ⟨"c", .string, none, false⟩
    (assigned.1 = .ok () ∧ assigned.2.resolve "x" = some ⟨"x", .double, some "2", false⟩ ∧
      assigned.2.lookup? (.level 0) "x" = some ⟨"x", .int, some "1", false⟩ ∧
      assigned.2.lookup? .globals "x" = some ⟨"x", .int, some "1", false⟩) ∧
    ((s.assign "c" "2").1 = .error .changeFinal ∧ (s.assign "c" "2").2 = s) ∧
    declared.1 = .ok () ∧ declared.2.lookup? (.level 2) "c" = some ⟨"c", .string, none, false⟩ ∧
      declared.2.lookup? (.level 0) "c" = some ⟨"c", .int, some "1", true⟩ := by
  intro globals s assigned declared
  obtain ⟨hassign, -, hdeclare, herror, -⟩ := exact_effects s
  refine ⟨?_, ?_, ?_⟩
  · obtain ⟨hok, -, -, heffect⟩ := hassign "x" "2"
    have hassigned := hok.mpr ⟨⟨"x", .double, none, false⟩, by decide, rfl⟩
    obtain ⟨p, v, hp, -, hv, hresolve, hsets⟩ := heffect hassigned
    obtain rfl : p = .level 1 := Option.some.inj (hp.symm.trans (by decide))
    obtain rfl : v = ⟨"x", .double, none, false⟩ := Option.some.inj (hv.symm.trans (by decide))
    exact ⟨hassigned, hresolve, (hsets.elsewhere (.level 0) "x" (by decide)).trans (by decide),
      (hsets.elsewhere .globals "x" (by decide)).trans (by decide)⟩
  · have hfinal := (hassign "c" "2").2.2.1.mpr ⟨⟨"c", .int, some "1", true⟩, by decide, rfl⟩
    exact ⟨hfinal, herror (.assign "c" "2") _ hfinal⟩
  · obtain ⟨hok, hsets⟩ := (hdeclare ⟨"c", .string, none, false⟩).2 (by decide)
    exact ⟨hok, hsets.here, (hsets.elsewhere (.level 0) "c" (by decide)).trans (by decide)⟩

end Scopes

end LineCheck
