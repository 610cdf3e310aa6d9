import LineCheck.Rules

/-!
# LineCheck.Proofs.Symbol.Writes — one value recorded after the other

Only the last value recorded for a variable is left, and values of different variables are recorded in any order.  So a
table that is `Settled` for a list of assignments, as every table is right after them, stays the same when all of them
are made once more.
-/

namespace LineCheck

namespace Table

variable {t : Table} {name other value value' : String}

theorem record_record (t : Table) (name value value' : String) :
    (t.record name value).record name value' = t.record name value' := by
  induction t with
  | nil => rfl
  | cons entry rest ih => by_cases h : entry.1 = name <;> simp [record, h, ih]

theorem record_comm (h : name ≠ other) (t : Table) (value value' : String) :
    (t.record name value).record other value' = (t.record other value').record name value := by
  induction t with
  | nil => rfl
  | cons entry rest ih =>
    by_cases hn : entry.1 = name
    · have ho : entry.1 ≠ other := fun ho => h (hn.symm.trans ho)
      simp [record, hn, h]
    · by_cases ho : entry.1 = other
      · simp [record, ho, Ne.symm h]
      · simp [record, hn, ho, ih]

theorem find?_record_eq_none_iff : (t.record name value).find? other = none ↔ t.find? other = none := by
  rw [find?_record]
  split
  · exact Option.map_eq_none_iff
  · exact Iff.rfl

/-- The texts of the values are recorded one after the other, each under the name on its left. -/
def recordAll (t : Table) (as : List Assignment) : Table :=
  as.foldl (fun t a => t.record a.name a.value.text) t

@[simp] theorem recordAll_nil (t : Table) : t.recordAll [] = t := rfl

@[simp] theorem recordAll_cons (t : Table) (a : Assignment) (as : List Assignment) :
    t.recordAll (a :: as) = (t.record a.name a.value.text).recordAll as := rfl

theorem recordAll_append (t : Table) (as bs : List Assignment) :
    t.recordAll (as ++ bs) = (t.recordAll as).recordAll bs :=
  List.foldl_append

/-- A value that is recorded for the same variable again in the end leaves nothing behind. -/
theorem record_recordAll_record (t : Table) (as : List Assignment) (name value value' : String) :
    ((t.record name value).recordAll as).record name value' = (t.recordAll as).record name value' := by
  induction as generalizing t with
  | nil => exact record_record t name value value'
  | cons a as ih =>
    rw [recordAll_cons, recordAll_cons]
    by_cases h : name = a.name
    · rw [h, record_record]
    · rw [record_comm h, ih]

/-- What is not in a table is not touched by values recorded for variables that are. -/
theorem recordAll_cons_of_ne {key : String} {v : Variable} {as : List Assignment} (h : ∀ a ∈ as, key ≠ a.name)
    (t : Table) : recordAll ((key, v) :: t) as = (key, v) :: t.recordAll as := by
  induction as generalizing t with
  | nil => rfl
  | cons a as ih =>
    rw [recordAll_cons, record, if_neg (h a List.mem_cons_self), ih fun b hb => h b (List.mem_cons_of_mem a hb),
      recordAll_cons]

/-- The assignments name variables of the table and, made once more, change nothing about it. -/
structure Settled (t : Table) (as : List Assignment) : Prop where
  eq : t.recordAll as = t
  known : ∀ a ∈ as, t.find? a.name ≠ none

namespace Settled

variable {as : List Assignment}

theorem nil (t : Table) : t.Settled [] :=
  ⟨rfl, fun _ ha => absurd ha List.not_mem_nil⟩

/-- One more assignment, after which the last of its name is the one that has just been made. -/
theorem record (h : t.Settled as) {a : Assignment} (ha : t.find? a.name ≠ none) :
    (t.record a.name a.value.text).Settled (as ++ [a]) := by
  constructor
  · rw [recordAll_append, recordAll_cons, recordAll_nil, record_recordAll_record, h.eq]
  · intro b hb
    rw [Ne, find?_record_eq_none_iff]
    rcases List.mem_append.mp hb with hb | hb
    · exact h.known b hb
    · rwa [List.mem_singleton.mp hb]

theorem recordAll {bs : List Assignment} (h : t.Settled as) (hbs : ∀ b ∈ bs, t.find? b.name ≠ none) :
    (t.recordAll bs).Settled (as ++ bs) := by
  induction bs generalizing t as with
  | nil => rwa [List.append_nil]
  | cons b bs ih =>
    obtain ⟨hb, hbs⟩ := List.forall_mem_cons.mp hbs
    have hmore := ih (h.record hb) fun c hc => (not_congr find?_record_eq_none_iff).mpr (hbs c hc)
    rwa [List.append_assoc, List.singleton_append] at hmore

/-- A new variable has not been assigned to before. -/
theorem insert (h : t.Settled as) {key : String} (hkey : t.find? key = none) (v : Variable) :
    Settled ((key, v) :: t) as := by
  constructor
  · rw [recordAll_cons_of_ne (fun a ha hname => h.known a ha (hname ▸ hkey)), h.eq]
  · intro a ha
    rw [find?_cons]
    split
    · exact Option.some_ne_none v
    · exact h.known a ha

end Settled

end Table

end LineCheck
