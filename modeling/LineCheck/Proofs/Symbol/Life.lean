import LineCheck.Proofs.Symbol.Operation

/-!
# LineCheck.Proofs.Symbol.Life — what becomes of a variable in its table

From an empty start, after any calls in any order, a table has each of its variables under the variable's own name, and
one variable under each name (`Scopes.keyed_after`): nothing gets into a table but by `Table.insertUnique`.  As long as
the table is not taken away, the variable stays in it under its name: its type and finality are those of its
declaration, and its value changes by an assignment only, and only if it is not final (`Scopes.exists_becomes`).
`entry_life` puts these together.
-/

namespace LineCheck

/-- What may become of the variable under a key while the calls are made, as long as its table stays. -/
structure Variable.Becomes (key : String) (v v' : Variable) (ops : List Operation) : Prop where
  name : v'.name = v.name
  ty : v'.ty = v.ty
  isFinal : v'.isFinal = v.isFinal
  value : v'.value = v.value ∨ v.isFinal = false ∧ ∃ x, .assign key x ∈ ops ∧ v'.value = some x

namespace Variable.Becomes

variable {key : String} {v v' v'' : Variable} {op : Operation} {ops : List Operation}

theorem refl (key : String) (v : Variable) (ops : List Operation) : Becomes key v v ops :=
  ⟨rfl, rfl, rfl, .inl rfl⟩

/-- What one call does to the variable, and then the calls behind it. -/
theorem cons (h : Becomes key v v' [op]) (h' : Becomes key v' v'' ops) : Becomes key v v'' (op :: ops) := by
  refine ⟨h'.name.trans h.name, h'.ty.trans h.ty, h'.isFinal.trans h.isFinal, ?_⟩
  rcases h'.value with hsame | ⟨hopen, x, hx, hvalue⟩
  · rw [hsame]
    rcases h.value with hsame | ⟨hopen, x, hx, hvalue⟩
    · exact .inl hsame
    · exact .inr ⟨hopen, x, by simp [List.mem_singleton.mp hx], hvalue⟩
  · exact .inr ⟨h.isFinal ▸ hopen, x, List.mem_cons_of_mem op hx, hvalue⟩

/-- The value of a final variable stays what it is. -/
theorem value_eq (h : Becomes key v v' ops) (hfinal : v.isFinal = true) : v'.value = v.value := by
  rcases h.value with hsame | ⟨hopen, -⟩
  · exact hsame
  · simp [hfinal] at hopen

/-- A variable that has a value goes on to have one. -/
theorem isAssigned (h : Becomes key v v' ops) (hv : v.isAssigned = true) : v'.isAssigned = true := by
  rcases h.value with hsame | ⟨-, x, -, hvalue⟩
  · rw [Variable.isAssigned, hsame]; exact hv
  · simp [Variable.isAssigned, hvalue]

end Variable.Becomes

/-! ### Each variable under its own name -/

namespace Table

/-- Each variable stands under its own name, and the names are different. -/
structure Keyed (t : Table) : Prop where
  own : ∀ key v, (key, v) ∈ t → v.name = key
  nodup : (t.map Prod.fst).Nodup

variable {t t' : Table} {v : Variable} {name : String}

theorem keyed_nil : Keyed [] :=
  ⟨fun _ _ h => absurd h List.not_mem_nil, List.nodup_nil⟩

theorem find?_eq_none_iff : t.find? name = none ↔ name ∉ t.map Prod.fst := by
  rw [find?, Option.map_eq_none_iff, List.find?_eq_none]
  simp only [beq_iff_eq, List.mem_map, not_exists, not_and]

/-- What is found under a name is what stands under it. -/
theorem Keyed.find?_eq_some_iff (h : t.Keyed) : t.find? name = some v ↔ (name, v) ∈ t := by
  obtain ⟨-, hnodup⟩ := h
  induction t with
  | nil => simp
  | cons entry rest ih =>
    obtain ⟨key, w⟩ := entry
    obtain ⟨hkey, hrest⟩ := List.nodup_cons.mp hnodup
    rw [find?_cons, List.mem_cons]
    by_cases hname : key = name
    · subst hname
      have hnot : (key, v) ∉ rest := fun hmem => hkey (List.mem_map.mpr ⟨(key, v), hmem, rfl⟩)
      simp [hnot, eq_comm]
    · simp [hname, Ne.symm hname, ih hrest]

theorem map_fst_record (t : Table) (name value : String) : (t.record name value).map Prod.fst = t.map Prod.fst := by
  induction t with
  | nil => rfl
  | cons entry rest ih => by_cases h : entry.1 = name <;> simp [record, h, ih]

/-- Recording a value leaves the variables under their keys. -/
theorem exists_mem_of_mem_record {key value : String} (h : (key, v) ∈ t.record name value) :
    ∃ w, (key, w) ∈ t ∧ w.name = v.name := by
  induction t with
  | nil => exact absurd h List.not_mem_nil
  | cons entry rest ih =>
    obtain ⟨key', w⟩ := entry
    rw [record] at h
    split at h
    · rcases List.mem_cons.mp h with heq | hmem
      · cases heq
        exact ⟨w, List.mem_cons_self, rfl⟩
      · exact ⟨v, List.mem_cons_of_mem _ hmem, rfl⟩
    · rcases List.mem_cons.mp h with heq | hmem
      · cases heq
        exact ⟨v, List.mem_cons_self, rfl⟩
      · obtain ⟨u, hu, hname⟩ := ih hmem
        exact ⟨u, List.mem_cons_of_mem _ hu, hname⟩

theorem Keyed.of_changes {op : Operation} (h : t.Keyed) (hop : op.Changes t t') : t'.Keyed := by
  cases hop with
  | nothing => exact h
  | @declared w _ fresh =>
    refine ⟨fun key v hmem => ?_, List.nodup_cons.mpr ⟨find?_eq_none_iff.mp fresh, h.nodup⟩⟩
    rcases List.mem_cons.mp hmem with heq | hmem
    · cases heq
      rfl
    · exact h.own key v hmem
  | assigned _ _ _ =>
    refine ⟨fun key v hmem => ?_, by rw [map_fst_record]; exact h.nodup⟩
    obtain ⟨w, hw, hname⟩ := exists_mem_of_mem_record hmem
    exact hname.symm.trans (h.own key w hw)

theorem keyed_of_forall₂ {op : Operation} {ts us : List Table} (h : List.Forall₂ op.Changes ts us)
    (hts : ∀ t ∈ ts, t.Keyed) : ∀ u ∈ us, u.Keyed := by
  induction h with
  | nil => exact hts
  | cons hop _ ih =>
    obtain ⟨ht, hts⟩ := List.forall_mem_cons.mp hts
    exact List.forall_mem_cons.mpr ⟨ht.of_changes hop, ih hts⟩

end Table

namespace Scopes

/-- Every table has its variables under their own names. -/
structure Keyed (s : Scopes) : Prop where
  globals : s.globals.Keyed
  stack : ∀ t ∈ s.stack, t.Keyed

variable {s : Scopes}

theorem Keyed.next (h : s.Keyed) (op : Operation) : (op.next s).Keyed := by
  refine ⟨h.globals.of_changes (op.changes_globals s), ?_⟩
  by_cases hlocal : op.isLocal = true
  · exact Table.keyed_of_forall₂ (Operation.changes_stack hlocal s) h.stack
  · cases op with
    | openFunction =>
      intro t ht
      rcases List.mem_pair.mp ht with rfl | rfl
      · exact Table.keyed_nil
      · exact h.globals
    | openBlock => exact List.forall_mem_cons.mpr ⟨Table.keyed_nil, h.stack⟩
    | closeInnermost => exact fun t ht => h.stack t (List.mem_of_mem_tail ht)
    | closeAll => exact fun t ht => absurd ht List.not_mem_nil
    | declareGlobal v =>
      rcases Operation.next_declareGlobal v s with hs | ⟨-, hs⟩ <;> rw [hs] <;> exact h.stack
    | _ => exact absurd rfl hlocal

theorem keyed_after (h : s.Keyed) (ops : List Operation) : (s.after ops).Keyed := by
  induction ops generalizing s with
  | nil => exact h
  | cons op ops ih => exact ih (h.next op)

theorem keyed_start : ({} : Scopes).Keyed :=
  ⟨Table.keyed_nil, fun _ ht => absurd ht List.not_mem_nil⟩

theorem Keyed.of_table? (h : s.Keyed) {p : Place} {t : Table} (ht : s.table? p = some t) : t.Keyed := by
  cases p with
  | globals => exact Option.some.inj ht ▸ h.globals
  | level n => exact h.stack t (List.mem_reverse.mp (List.mem_of_getElem? ht))

end Scopes

/-! ### The variable in its table -/

/-- A table that changes keeps each of its variables. -/
theorem Operation.Changes.exists_becomes {op : Operation} {t t' : Table} (h : op.Changes t t') {name : String}
    {v : Variable} (hv : t.find? name = some v) : ∃ v', t'.find? name = some v' ∧ Variable.Becomes name v v' [op] := by
  cases h with
  | nothing => exact ⟨v, hv, .refl name v _⟩
  | @declared w _ fresh =>
    have hne : w.name ≠ name := by
      rintro rfl
      rw [fresh] at hv
      cases hv
    exact ⟨v, by rw [Table.find?_cons, if_neg hne, hv], .refl name v _⟩
  | @assigned target x w call found hopen =>
    rw [Table.find?_record, hv]
    by_cases hname : target = name
    · subst hname
      rw [found] at hv
      cases hv
      rw [if_pos rfl]
      exact ⟨_, rfl, rfl, rfl, rfl, .inr ⟨hopen, x, List.mem_singleton.mpr call.symm, rfl⟩⟩
    · exact ⟨v, if_neg hname, .refl name v _⟩

namespace Scopes

/-- As long as its table stays, a variable stays in it. -/
theorem exists_becomes {p : Place} {ops : List Operation} {s : Scopes} (hp : p.Lasts s ops) {t : Table}
    (ht : s.table? p = some t) {name : String} {v : Variable} (hv : t.find? name = some v) :
    ∃ t' v', (s.after ops).table? p = some t' ∧ t'.find? name = some v' ∧ Variable.Becomes name v v' ops := by
  induction ops generalizing s t v with
  | nil => exact ⟨t, v, ht, hv, .refl name v []⟩
  | cons op ops ih =>
    obtain ⟨hstays, hlasts⟩ := hp
    obtain ⟨t₁, ht₁, hchanges⟩ := Operation.exists_changes ht hstays
    obtain ⟨v₁, hv₁, hfirst⟩ := hchanges.exists_becomes hv
    obtain ⟨t', v', ht', hv', hrest⟩ := ih hlasts ht₁ hv₁
    exact ⟨t', v', ht', hv', hfirst.cons hrest⟩

/-- From `{}` on, as long as its table `Lasts`, a variable keeps its name, type and finality, a value if it is final,
and having one; only `assign` to its key gives it another.  `Table.find?` finds each variable under its own name alone,
and `assign` to a final one changes nothing. -/
theorem entry_life (ops : List Operation) :
    let s := ({} : Scopes).after ops
    (∀ p t name v more, s.table? p = some t → t.find? name = some v → p.Lasts s more →
      ∃ t' v', (s.after more).table? p = some t' ∧ t'.find? name = some v' ∧
        v'.name = v.name ∧ v'.ty = v.ty ∧ v'.isFinal = v.isFinal ∧
        (v.isFinal = true → v'.value = v.value) ∧ (v.isAssigned = true → v'.isAssigned = true) ∧
        (v'.value = v.value ∨ ∃ x, .assign name x ∈ more ∧ v'.value = some x)) ∧
    (∀ p t, s.table? p = some t →
      (∀ key v, (key, v) ∈ t → v.name = key) ∧ (t.map Prod.fst).Nodup ∧
        ∀ name v, t.find? name = some v ↔ (name, v) ∈ t) ∧
    (∀ name v x, s.resolve name = some v → v.isFinal = true →
      (Operation.assign name x).perform s = (.error .changeFinal, s)) := by
  intro s
  refine ⟨?_, ?_, ?_⟩
  · intro p t name v more ht hv hlasts
    obtain ⟨t', v', ht', hv', hbecomes⟩ := exists_becomes hlasts ht hv
    refine ⟨t', v', ht', hv', hbecomes.name, hbecomes.ty, hbecomes.isFinal, hbecomes.value_eq, hbecomes.isAssigned, ?_⟩
    rcases hbecomes.value with hsame | ⟨-, hassigned⟩
    · exact .inl hsame
    · exact .inr hassigned
  · intro p t ht
    have hkeyed : t.Keyed := (keyed_after keyed_start ops).of_table? ht
    exact ⟨hkeyed.own, hkeyed.nodup, fun _ _ => hkeyed.find?_eq_some_iff⟩
  · intro name v x hv hfinal
    exact assign_eq_changeFinal hv hfinal x

/-- A function's own variable, and a final global with its copy in the function. -/
theorem entry_life_local :
    let ops : List Operation :=
      [.declareGlobal ⟨"c", .int, some "1", true⟩, .openFunction, .declare ⟨"x", .int, none, false⟩]
    let more : List Operation :=
      [.assign "c" "2", .declare ⟨"x", .double, none, true⟩, .openBlock, .declare ⟨"c", .string, none, false⟩,
        .assign "x" "5", .closeInnermost, .closeInnermost]
    let s := ({} : Scopes).after ops
    (s.table? (.level 0) = some [("c", ⟨"c", .int, some "1", true⟩)] ∧ (Place.level 0).Lasts s more ∧
      ∃ t v, (s.after more).table? (.level 0) = some t ∧ t.find? "c" = some v ∧ v.ty = .int ∧ v.isFinal = true ∧
        v.value = some "1") ∧
    (s.resolve "c" = some ⟨"c", .int, some "1", true⟩ ∧
      (Operation.assign "c" "2").perform s = (.error .changeFinal, s)) := by
  intro ops more s
  obtain ⟨hlife, -, hfinal⟩ := entry_life ops
  have htable : s.table? (.level 0) = some [("c", ⟨"c", .int, some "1", true⟩)] := by decide
  have hlasts : (Place.level 0).Lasts s more := by
    refine ⟨?_, ?_, ?_, ?_, ?_, ?_, ?_, trivial⟩ <;> decide
  have hresolve : s.resolve "c" = some ⟨"c", .int, some "1", true⟩ := by decide
  have hcopy : Table.find? [("c", ⟨"c", .int, some "1", true⟩)] "c" = some ⟨"c", .int, some "1", true⟩ := by decide
  obtain ⟨t, v, ht, hv, -, hty, hvfinal, hvalue, -, -⟩ := hlife (.level 0) _ "c" _ more htable hcopy hlasts
  exact ⟨⟨htable, hlasts, t, v, ht, hv, hty, hvfinal, hvalue rfl⟩, hresolve, hfinal "c" _ "2" hresolve rfl⟩

end Scopes

end LineCheck
