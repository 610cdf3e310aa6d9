import LineCheck.Proofs.Symbol.Effect

/-!
# LineCheck.Proofs.Symbol.Block — what a block leaves behind

Between the opening of a block and its end, variables are declared in the block and in blocks inside it, and values are
assigned.  A value gets out of the block if no table opened since has the name when it is assigned
(`Operation.outward?`), and the last one that gets out is the one that stays (`Scopes.lastOutward`).  All other traces
are gone at the end of the block (`Scopes.block_restores`).

The tables that were open at first stay below those that the block opens.  `Scopes.Carries` says what becomes of them:
each name keeps its table, and there its value is overwritten.  One call does this (`Scopes.carries_next`), and so does
a sequence of calls that closes what it opens (`Scopes.carries_after`), by induction on how the blocks are nested.
-/

namespace LineCheck

/-- Calls inside a block: they work in the tables that are open, and close each block that they open. -/
inductive Operation.Bracketed : List Operation → Prop where
  | nil : Bracketed []
  | work {op : Operation} {ops : List Operation} (isLocal : op.isLocal = true) (rest : Bracketed ops) :
      Bracketed (op :: ops)
  | block {inside more : List Operation} (inner : Bracketed inside) (rest : Bracketed more) :
      Bracketed (.openBlock :: (inside ++ .closeInnermost :: more))

namespace Scopes

variable {s s' s'' : Scopes} {base : Nat} {name : String}

/-- The tables opened since `base` of them were open. -/
def above (s : Scopes) (base : Nat) : List Table :=
  s.stack.take (s.depth - base)

/-- The outermost `base` of the open tables. -/
def below (s : Scopes) (base : Nat) : List Table :=
  s.stack.drop (s.depth - base)

end Scopes

/-- The value that the call gives to a variable of the name outside the tables opened since `base` of them were open: it
is a legal assignment to the name, and none of these tables has the name now. -/
def Operation.outward? (base : Nat) (name : String) (s : Scopes) : Operation → Option String
  | assign target value =>
    if target = name ∧ (s.assign target value).1.isOk = true ∧ ∀ t ∈ s.above base, t.find? name = none then some value
    else none
  | _ => none

/-- The last value that the calls give to a variable of the name outside the tables opened since `base` of them were
open. -/
def Scopes.lastOutward (base : Nat) (name : String) : Scopes → List Operation → Option String
  | _, [] => none
  | s, op :: ops => (lastOutward base name (op.next s) ops).or (op.outward? base name s)

/-! ### Tables with other values -/

/-- The variable with the new value, if there is one. -/
def Variable.overwrite (v : Variable) (value : Option String) : Variable :=
  { v with value := value.or v.value }

@[simp] theorem Variable.overwrite_none (v : Variable) : v.overwrite none = v := by
  simp [overwrite]

theorem Variable.overwrite_overwrite (v : Variable) (first second : Option String) :
    (v.overwrite first).overwrite second = v.overwrite (second.or first) := by
  simp [overwrite, Option.or_assoc]

namespace Table

variable {first second : String → Option String} {ts ts' ts'' : List Table}

/-- The same tables, where the variable that each name means in them has the last value of the name, if there is one. -/
structure Overwritten (last : String → Option String) (ts ts' : List Table) : Prop where
  length : ts'.length = ts.length
  level : ∀ name, levelOf name ts' = levelOf name ts
  entry : ∀ n name, (atLevel n ts').bind (find? · name) =
    if levelOf name ts = some n then ((atLevel n ts).bind (find? · name)).map (·.overwrite (last name))
    else (atLevel n ts).bind (find? · name)

theorem overwritten_self (ts : List Table) : Overwritten (fun _ => none) ts ts := by
  refine ⟨rfl, fun _ => rfl, fun n name => ?_⟩
  simp only [Variable.overwrite_none, Option.map_id', ite_self]

theorem Overwritten.congr (h : Overwritten first ts ts') (hlast : ∀ name, second name = first name) :
    Overwritten second ts ts' := by
  obtain rfl : second = first := funext hlast
  exact h

theorem Overwritten.trans (h : Overwritten first ts ts') (h' : Overwritten second ts' ts'') :
    Overwritten (fun name => (second name).or (first name)) ts ts'' := by
  refine ⟨h'.length.trans h.length, fun name => (h'.level name).trans (h.level name), fun n name => ?_⟩
  rw [h'.entry, h.entry, h.level]
  split
  · rw [Option.map_map]
    simp only [Function.comp_def, Variable.overwrite_overwrite]
  · rfl

theorem overwritten_recordIn (name value : String) (ts : List Table) :
    Overwritten (fun other => if name = other then some value else none) ts (Scopes.recordIn name value ts) := by
  refine ⟨Scopes.length_recordIn name value ts, fun other => levelOf_recordIn name value other ts, fun n other => ?_⟩
  rw [atLevel_recordIn]
  by_cases ho : name = other
  · subst ho
    split
    · cases atLevel n ts with
      | none => rfl
      | some t => simp [find?_record, Variable.overwrite]
    · rfl
  · -- what is found under another name is not touched
    have hsame : ∀ t : Table, (t.record name value).find? other = t.find? other := fun t => by
      rw [find?_record, if_neg ho]
    simp only [if_neg ho, Variable.overwrite_none, Option.map_id', ite_self]
    split
    · cases atLevel n ts with
      | none => rfl
      | some t => exact hsame t
    · rfl

/-- A value is recorded in the inner tables if one of them has the name, and else in those around them. -/
theorem recordIn_append (name value : String) (inner outer : List Table) :
    Scopes.recordIn name value (inner ++ outer) =
      if ∀ t ∈ inner, t.find? name = none then inner ++ Scopes.recordIn name value outer
      else Scopes.recordIn name value inner ++ outer := by
  induction inner with
  | nil => simp
  | cons t inner ih =>
    rw [List.cons_append, Scopes.recordIn, Scopes.recordIn, ih]
    cases ht : t.find? name with
    | some v => simp [ht]
    | none =>
      simp only [Option.isSome_none, Bool.false_eq_true, if_false, List.forall_mem_cons, ht, true_and]
      split <;> simp

end Table

namespace Scopes

variable {s s' s'' : Scopes} {base : Nat} {first second : String → Option String}

/-! ### Above and below -/

theorem above_append_below (s : Scopes) (base : Nat) : s.above base ++ s.below base = s.stack :=
  List.take_append_drop _ _

theorem below_of_append {inner outer : List Table} (hs : s.stack = inner ++ outer)
    (hbase : s.depth = inner.length + base) : s.below base = outer := by
  rw [below, hs, hbase, Nat.add_sub_cancel, List.drop_left]

theorem below_openBlock (h : base ≤ s.depth) : s.openBlock.below base = s.below base := by
  rw [below, depth_openBlock, Nat.succ_sub h]
  rfl

/-- The innermost table is above. -/
theorem below_eq_drop_tail (h : base < s.depth) : s.below base = s.stack.tail.drop (s.depth - 1 - base) := by
  rw [below, List.drop_tail]
  congr 1
  omega

theorem below_closeInnermost (h : base < s.depth) : s.closeInnermost.below base = s.below base := by
  rw [below_eq_drop_tail h, below, depth_closeInnermost]
  rfl

theorem below_depth (s : Scopes) : s.below s.depth = s.stack := by
  rw [below, Nat.sub_self, List.drop_zero]

/-! ### What becomes of the outer tables -/

/-- The same number of tables is open, and of the outermost `base` of them each name keeps its own, where its variable
has the last value of the name, if there is one. -/
structure Carries (base : Nat) (last : String → Option String) (s s' : Scopes) : Prop where
  keeps : s.Keeps s'
  below : Table.Overwritten last (s.below base) (s'.below base)

theorem carries_self (base : Nat) (s : Scopes) : Carries base (fun _ => none) s s :=
  ⟨.refl s, Table.overwritten_self _⟩

theorem Carries.trans (h : Carries base first s s') (h' : Carries base second s' s'') :
    Carries base (fun name => (second name).or (first name)) s s'' :=
  ⟨h.keeps.trans h'.keeps, h.below.trans h'.below⟩

/-- Nothing of what a block declares is below it, so its end takes only its own table away. -/
theorem Carries.closeBlock (hbase : base ≤ s.depth) (h : Carries base first s.openBlock s') :
    Carries base first s s'.closeInnermost := by
  have hdepth : s'.depth = s.depth + 1 := h.keeps.depth.trans (depth_openBlock s)
  refine ⟨⟨?_, fun _ => h.keeps.globals (List.cons_ne_nil _ _)⟩, ?_⟩
  · show s'.closeInnermost.depth = s.depth
    rw [depth_closeInnermost, hdepth, Nat.add_sub_cancel]
  · rw [below_closeInnermost (by omega), ← below_openBlock hbase]
    exact h.below

/-- A legal assignment goes out of the tables above if none of them has the name. -/
theorem below_record (hbase : base < s.depth) (name value : String) :
    (s.record name value).below base =
      if ∀ t ∈ s.above base, t.find? name = none then recordIn name value (s.below base) else s.below base := by
  have hne : s.stack ≠ [] := by
    rw [← List.length_pos_iff]
    exact Nat.zero_lt_of_lt hbase
  have hbelow : (s.below base).length = base := by
    rw [below, List.length_drop]
    exact Nat.sub_sub_self (Nat.le_of_lt hbase)
  have hrecord : (s.record name value).stack = recordIn name value (s.above base ++ s.below base) := by
    rw [record_of_ne_nil hne, above_append_below]
  have hdepth : (s.record name value).depth = (s.above base).length + base := by
    rw [(s.keeps_record name value).depth, depth, ← above_append_below s base, List.length_append, hbelow]
  rw [Table.recordIn_append] at hrecord
  split at hrecord
  · next hnone =>
    rw [below_of_append hrecord hdepth, if_pos hnone]
  · next hsome =>
    rw [below_of_append hrecord (by rw [hdepth, length_recordIn]), if_neg hsome]

/-- A new variable stands above. -/
theorem below_next_declare (hbase : base < s.depth) (v : Variable) :
    ((Operation.declare v).next s).below base = s.below base := by
  have hne : s.stack ≠ [] := List.length_pos_iff.mp (Nat.zero_lt_of_lt hbase)
  have hdepth : ((Operation.declare v).next s).depth = s.depth := (Operation.keeps_next rfl s).depth
  obtain ⟨top, outer, hs⟩ := List.exists_cons_of_ne_nil hne
  rw [below_eq_drop_tail (hdepth ▸ hbase), below_eq_drop_tail hbase, hdepth]
  rcases Operation.next_declare_of_cons v hs with h | ⟨-, h⟩
  · rw [h]
  · rw [h, hs]
    rfl

theorem outward?_of_ok {target value : String} (h : (s.assign target value).1 = .ok ()) (base : Nat) (name : String) :
    (Operation.assign target value).outward? base name s =
      if target = name ∧ ∀ t ∈ s.above base, t.find? name = none then some value else none := by
  simp [Operation.outward?, h, Except.isOk, Except.toBool]

theorem outward?_of_error {target value : String} {e : Violation} (h : (s.assign target value).1 = .error e)
    (base : Nat) (name : String) : (Operation.assign target value).outward? base name s = none := by
  simp [Operation.outward?, h, Except.isOk, Except.toBool]

/-- What one call does that works in the open tables. -/
theorem carries_next {op : Operation} (hlocal : op.isLocal = true) (hbase : base < s.depth) :
    Carries base (fun name => op.outward? base name s) s (op.next s) := by
  refine ⟨Operation.keeps_next hlocal s, ?_⟩
  cases op with
  | declare v =>
    rw [below_next_declare hbase]
    exact Table.overwritten_self _
  | assign target value =>
    show Table.Overwritten _ (s.below base) ((s.assign target value).2.below base)
    cases hassign : (s.assign target value).1 with
    | error e =>
      rw [snd_assign_of_error hassign]
      exact (Table.overwritten_self _).congr fun name => outward?_of_error hassign base name
    | ok _ =>
      rw [snd_assign_of_ok hassign, below_record hbase]
      split
      · next hout =>
        refine (Table.overwritten_recordIn target value _).congr fun name => ?_
        rw [outward?_of_ok hassign]
        by_cases hname : target = name
        · rw [if_pos ⟨hname, hname ▸ hout⟩, if_pos hname]
        · rw [if_neg fun h => hname h.1, if_neg hname]
      · next hin =>
        -- a table above has the name and takes the value
        refine (Table.overwritten_self _).congr fun name => ?_
        rw [outward?_of_ok hassign]
        refine if_neg ?_
        rintro ⟨rfl, hout⟩
        exact hin hout
  | resolve name => exact Table.overwritten_self _
  | typeOf name => exact Table.overwritten_self _
  | valueOf name => exact Table.overwritten_self _
  | _ => cases hlocal

/-! ### Sequences -/

theorem lastOutward_append (base : Nat) (name : String) (s : Scopes) (ops more : List Operation) :
    lastOutward base name s (ops ++ more) =
      (lastOutward base name (s.after ops) more).or (lastOutward base name s ops) := by
  induction ops generalizing s with
  | nil => simp [lastOutward]
  | cons op ops ih => rw [List.cons_append, lastOutward, lastOutward, ih, after_cons, Option.or_assoc]

/-- Calls that close what they open.  The induction is on how the blocks are nested: those inside the outer tables are
opened on top of one more table, and their end takes just this table away. -/
theorem carries_after {ops : List Operation} (hops : Operation.Bracketed ops) (hbase : base < s.depth) :
    Carries base (fun name => lastOutward base name s ops) s (s.after ops) := by
  induction hops generalizing s with
  | nil => exact carries_self base s
  | @work op ops hlocal _ ih =>
    have hfirst := carries_next hlocal hbase
    exact hfirst.trans (ih (hfirst.keeps.depth ▸ hbase))
  | @block inside more _ _ ihInside ihMore =>
    have hinside := ihInside (s := s.openBlock) (Nat.lt_succ_of_lt hbase)
    have hblock := hinside.closeBlock (Nat.le_of_lt hbase)
    have hmore := ihMore (hblock.keeps.depth ▸ hbase)
    have hafter : s.after (.openBlock :: (inside ++ .closeInnermost :: more)) =
        ((s.openBlock.after inside).closeInnermost).after more := by simp
    rw [hafter]
    refine ⟨(hblock.trans hmore).keeps, (hblock.trans hmore).below.congr fun name => ?_⟩
    simp [lastOutward, lastOutward_append, Operation.outward?]

theorem Carries.overwritten {last : String → Option String} (h : Carries s.depth last s s') :
    Table.Overwritten last s.stack s'.stack := by
  have hbelow := h.below
  rwa [below_depth, ← h.keeps.depth, below_depth] at hbelow

/-- Where all tables are carried over, a name means what stands in the same table as before. -/
theorem Carries.home?_eq {last : String → Option String} (h : Carries s.depth last s s') (hs : s.stack ≠ [])
    (name : String) : s'.home? name = s.home? name := by
  rw [home?_of_ne_nil hs, home?_of_ne_nil (h.keeps.stack_ne_nil.mpr hs), h.overwritten.level]

theorem Carries.lookup?_eq {last : String → Option String} (h : Carries s.depth last s s') (hs : s.stack ≠ [])
    (p : Place) (name : String) :
    s'.lookup? p name =
      if s.home? name = some p then (s.lookup? p name).map (·.overwrite (last name)) else s.lookup? p name := by
  rw [home?_of_ne_nil hs]
  cases p with
  | globals => simp [lookup?, table?, h.keeps.globals hs]
  | level n =>
    rw [lookup?, lookup?, table?_level, table?_level, h.overwritten.entry]
    simp

/-- Behind a block (`Operation.Bracketed`) the same tables have the same names, types and finality, and every name has
the same `Scopes.home?`.  Only the entry that a name means may have changed, to its `lastOutward` value if there is
one. -/
theorem block_restores {s : Scopes} (hs : s.inFunction = true) {ops : List Operation}
    (hops : Operation.Bracketed ops) :
    let s' := s.after (.openBlock :: (ops ++ [.closeInnermost]))
    s'.depth = s.depth ∧
    (∀ p name, (s'.lookup? p name).map (fun v => (v.name, v.ty, v.isFinal)) =
      (s.lookup? p name).map fun v => (v.name, v.ty, v.isFinal)) ∧
    (∀ name, s'.home? name = s.home? name) ∧
    (∀ p name v, s.home? name = some p → s.lookup? p name = some v →
      s'.lookup? p name = some { v with value := (lastOutward s.depth name s.openBlock ops).or v.value }) ∧
    ∀ p name, s.home? name ≠ some p → s'.lookup? p name = s.lookup? p name := by
  intro s'
  have hne : s.stack ≠ [] := by simpa [inFunction] using hs
  have hend : s' = (s.openBlock.after ops).closeInnermost := by simp [s']
  have hcarries : Carries s.depth (fun name => lastOutward s.depth name s.openBlock ops) s s' := by
    rw [hend]
    exact (carries_after hops (Nat.lt_succ_self _)).closeBlock (Nat.le_refl _)
  refine ⟨hcarries.keeps.depth, fun p name => ?_, hcarries.home?_eq hne, fun p name v hp hv => ?_,
    fun p name hp => ?_⟩
  · rw [hcarries.lookup?_eq hne]
    split
    · rw [Option.map_map]
      rfl
    · rfl
  · rw [hcarries.lookup?_eq hne, if_pos hp, hv]
    rfl
  · rw [hcarries.lookup?_eq hne, if_neg hp]

/-- Before the block a variable of the function hides the copy of a global.  In the block it is assigned to and then
hidden by a variable of the block, which takes the next value.  Another one is assigned to from a block inside, hidden
there, and assigned to once more behind that block; a final one is assigned to in vain. -/
theorem block_restores_hidden :
    let globals : Table := [("x", ⟨"x", .int, some "0", false⟩)]
    let s : Scopes := ⟨globals, [[("x", ⟨"x", .int, some "1", false⟩), ("y", ⟨"y", .int, none, false⟩),
      ("c", ⟨"c", .int, some "7", true⟩)], globals]⟩
    let ops : List Operation :=
      [.assign "x" "2", .declare ⟨"x", .string, none, false⟩, .assign "x" "3", .assign "c" "8", .openBlock,
        .assign "y" "4", .declare ⟨"y", .double, none, false⟩, .assign "y" "5", .closeInnermost, .assign "y" "6"]
    let s' := s.after (.openBlock :: (ops ++ [.closeInnermost]))
    s.inFunction = true ∧ Operation.Bracketed ops ∧ s'.depth = 2 ∧
      s'.lookup? (.level 1) "x" = some ⟨"x", .int, some "2", false⟩ ∧
      s'.lookup? (.level 1) "y" = some ⟨"y", .int, some "6", false⟩ ∧
      s'.lookup? (.level 1) "c" = some ⟨"c", .int, some "7", true⟩ ∧
      s'.lookup? (.level 0) "x" = some ⟨"x", .int, some "0", false⟩ := by
  intro globals s ops s'
  have hs : s.inFunction = true := rfl
  have hops : Operation.Bracketed ops :=
    .work rfl (.work rfl (.work rfl (.work rfl (.block (.work rfl (.work rfl (.work rfl .nil))) (.work rfl .nil)))))
  obtain ⟨hdepth, -, -, hhome, helse⟩ := block_restores hs hops
  refine ⟨hs, hops, hdepth,
    (hhome (.level 1) "x" ⟨"x", .int, some "1", false⟩ (by decide) (by decide)).trans (by decide),
    (hhome (.level 1) "y" ⟨"y", .int, none, false⟩ (by decide) (by decide)).trans (by decide),
    (hhome (.level 1) "c" ⟨"c", .int, some "7", true⟩ (by decide) (by decide)).trans (by decide),
    (helse (.level 0) "x" (by decide)).trans (by decide)⟩

end Scopes

end LineCheck
