import LineCheck.Proofs.Pass.Mirror

/-!
# LineCheck.Proofs.Pass.Split — a line and its parts

A line that declares several variables, or makes several assignments, does what lines with one each do one after the
other (`Statement.SplitsInto`).  To see this the parts are given the number of the line; then both passes are in the
same state behind the line and behind its parts, or stop for the same reason, wherever the line stands: outside blocks,
in a block that is passed over, or in a function (`Collector.result_step_of_split`, `Checker.result_step_of_split`).
-/

namespace LineCheck

open Traced Text

/-! ### Folds on a part of the state -/

namespace Traced

section Fold

variable {ε σ α : Type} {step : σ → α → Traced ε σ} {s s₁ : σ} {xs : List α}

theorem foldlM_singleton (step : σ → α → Traced ε σ) (s : σ) (x : α) : [x].foldlM step s = step s x := by
  rw [List.foldlM_cons]
  simp only [List.foldlM_nil, bind_pure]

/-- A loop is the loop over its parts with one item each. -/
theorem foldlM_singletons (step : σ → α → Traced ε σ) (xs : List α) (s : σ) :
    xs.foldlM step s = xs.foldlM (fun s x => [x].foldlM step s) s := by
  simp only [foldlM_singleton]

/-- If each step leaves the state as it is, so do all of them. -/
theorem leads_self (h : ∀ x ∈ xs, (step s x).result = .ok s) : Leads step s xs s := by
  induction xs with
  | nil => exact leads_nil.mpr rfl
  | cons x xs ih =>
    obtain ⟨hx, hxs⟩ := List.forall_mem_cons.mp h
    exact leads_cons.mpr ⟨s, hx, ih hxs⟩

/-- Only the first step sees the state at the start. -/
theorem foldlM_congr_start (hne : xs ≠ []) (h : ∀ x ∈ xs, (step s x).result = (step s₁ x).result) :
    (xs.foldlM step s).result = (xs.foldlM step s₁).result := by
  cases xs with
  | nil => exact absurd rfl hne
  | cons x xs => rw [List.foldlM_cons, List.foldlM_cons, result_bind, result_bind, h x List.mem_cons_self]

end Fold

/-- A part of a state that can be looked at and changed on its own. -/
structure Part (σ ρ : Type) where
  get : σ → ρ
  put : σ → ρ → σ
  get_put (s : σ) (a : ρ) : get (put s a) = a
  put_put (s : σ) (a b : ρ) : put (put s a) b = put s b
  put_get (s : σ) : put s (get s) = s

namespace Part

variable {σ ρ α β : Type} (p : Part σ ρ)

/-- The computation done on the part. -/
def run (s : σ) (x : Traced (Stop ρ) ρ) : Traced (Stop σ) σ :=
  p.put s <$> x.mapError fun stop => ⟨stop.rejection, p.put s stop.state⟩

theorem result_run (s : σ) (x : Traced (Stop ρ) ρ) :
    (p.run s x).result =
      match x.result with
      | .ok a => .ok (p.put s a)
      | .error stop => .error ⟨stop.rejection, p.put s stop.state⟩ := by
  obtain ⟨log, result⟩ := x
  cases result <;> rfl

/-- Where each step works on the part, all of them together work on it as a loop over the part does. -/
theorem result_foldlM (inside : σ → Prop) {S : β → α → Prop} {step : σ → α → Traced (Stop σ) σ}
    {f : ρ → β → Traced (Stop ρ) ρ} (hkeep : ∀ s a, inside s → inside (p.put s a))
    (hstep : ∀ s x y, inside s → S y x → (step s x).result = (p.run s (f (p.get s) y)).result) {xs : List α}
    {ys : List β} (hitems : List.Forall₂ S ys xs) {s : σ} (hs : inside s) :
    (xs.foldlM step s).result = (p.run s (ys.foldlM f (p.get s))).result := by
  induction hitems generalizing s with
  | nil => exact congrArg Except.ok (p.put_get s).symm
  | @cons y x ys xs hxy _ ih =>
    have hfirst := hstep s x y hs hxy
    rw [result_run] at hfirst
    rw [List.foldlM_cons, List.foldlM_cons, result_bind, hfirst, result_run, result_bind]
    cases (f (p.get s) y).result with
    | error stop => rfl
    | ok a =>
      have hnext := ih (hkeep s a hs)
      rw [p.get_put, result_run] at hnext
      simp only [p.put_put] at hnext
      exact hnext

end Part

end Traced

/-! ### Lines with several items -/

/-- The second statements are the first one with one variable, or one assignment, each. -/
inductive Statement.SplitsInto : Statement → List Statement → Prop where
  | declaration (d : Declaration) :
      SplitsInto (.declaration d) (d.declarators.map fun v => .declaration { d with declarators := [v] })
  | assignment (as : List Assignment) : SplitsInto (.assignment as) (as.map fun a => .assignment [a])

namespace Statement

/-- It declares variables or gives them values. -/
def isBinding : Statement → Bool
  | declaration _ => true
  | assignment _ => true
  | _ => false

/-- What it does to the variables in sight, where declarations count. -/
def bind (number : Nat) (scopes : Scopes) : Statement → Traced (Stop Scopes) Scopes
  | declaration d => d.perform number scopes
  | assignment as => performAll as number scopes
  | _ => pure scopes

/-- What it does to the variables in sight, where the declarations have been made before. -/
def replay (number : Nat) (scopes : Scopes) : Statement → Traced (Stop Scopes) Scopes
  | assignment as => performAll as number scopes
  | _ => pure scopes

variable {whole : Statement} {parts : List Statement}

theorem SplitsInto.isBinding (h : whole.SplitsInto parts) :
    whole.isBinding = true ∧ ∀ part ∈ parts, part.isBinding = true := by
  cases h with
  | declaration d => exact ⟨rfl, List.forall_mem_map.mpr fun _ _ => rfl⟩
  | assignment as => exact ⟨rfl, List.forall_mem_map.mpr fun _ _ => rfl⟩

theorem braces_of_isBinding {a : Statement} (h : a.isBinding = true) : a.braces = 0 := by
  cases a with
  | declaration d => rfl
  | assignment as => rfl
  | _ => cases h

theorem SplitsInto.bind_eq (h : whole.SplitsInto parts) (number : Nat) (scopes : Scopes) :
    whole.bind number scopes = parts.foldlM (fun scopes part => part.bind number scopes) scopes := by
  cases h with
  | declaration d =>
    rw [List.foldlM_map]
    exact foldlM_singletons (d.performOne number) d.declarators scopes
  | assignment as =>
    rw [List.foldlM_map]
    exact foldlM_singletons (performOne number) as scopes

theorem SplitsInto.replay_eq (h : whole.SplitsInto parts) (number : Nat) (scopes : Scopes) :
    whole.replay number scopes = parts.foldlM (fun scopes part => part.replay number scopes) scopes := by
  cases h with
  | declaration d =>
    rw [List.foldlM_map]
    induction d.declarators with
    | nil => rfl
    | cons v vs ih => rw [List.foldlM_cons]; exact ih
  | assignment as =>
    rw [List.foldlM_map]
    exact foldlM_singletons (performOne number) as scopes

end Statement

open Statement

/-- The lines read as the parts, and have all this number. -/
def ReadAt (number : Nat) (parts : List Statement) (ls : List NumberedLine) : Prop :=
  List.Forall₂ (fun (part : Statement) (l : NumberedLine) => l.number = number ∧ l.Reads part) parts ls

section Split

variable {number : Nat} {l : NumberedLine} {ls : List NumberedLine} {whole : Statement} {parts : List Statement}

theorem ReadAt.binding (h : ReadAt number parts ls) (hsplit : whole.SplitsInto parts) :
    List.Forall₂ (fun part l => part.isBinding = true ∧ l.number = number ∧ l.Reads part) parts ls :=
  (List.forall₂_and_left _ _).mpr ⟨hsplit.isBinding.2, h⟩

theorem ReadAt.mem (h : ReadAt number parts ls) (hsplit : whole.SplitsInto parts) {x : NumberedLine} (hx : x ∈ ls) :
    x.number = number ∧ ∃ part, part.isBinding = true ∧ x.Reads part := by
  obtain ⟨part, -, hbinding, hnumber, hreads⟩ := exists_mem_of_forall₂ (h.binding hsplit).flip hx
  exact ⟨hnumber, part, hbinding, hreads⟩

theorem ReadAt.ne_nil (h : ReadAt number parts ls) (hne : parts ≠ []) : ls ≠ [] := by
  rintro rfl
  cases h
  exact hne rfl

/-! ### The first pass -/

namespace Collector

variable {s : Collector}

/-- The variables in sight of the first pass. -/
def scopesPart : Part Collector Scopes :=
  ⟨scopes, fun s scopes => { s with scopes }, fun _ _ => rfl, fun _ _ _ => rfl, fun _ => rfl⟩

theorem perform_of_isBinding {a : Statement} (h : a.isBinding = true) (s : Collector) :
    s.perform a = s.withScopes (a.bind s.line s.scopes) := by
  cases a with
  | declaration d => rfl
  | assignment as => rfl
  | _ => cases h

/-- In a block that is passed over a line without braces does nothing but to come next. -/
theorem result_step_of_open {k : Skip} (hskip : s.skip = some k) (hopened : 0 < k.balance)
    (hbraces : netBraces l.text = 0) (hhere : s.line = l.number) : (s.step l).result = .ok s := by
  have hbalance : k.balance + netBraces l.text = k.balance := by rw [hbraces, Int.add_zero]
  rw [result_step_of_skip hskip, passOver, hbalance, if_pos hopened, ← hskip, ← hhere]
  rfl

theorem result_step_of_binding {a : Statement} (ha : a.isBinding = true) (hskip : s.skip = none) (hl : l.Reads a)
    (hhere : s.line = l.number) :
    (s.step l).result = (s.withScopes (a.bind l.number s.scopes)).result := by
  rw [result_step_of_reads hskip hl, perform_of_isBinding ha, ← hhere]

/-- In the first pass a line does what its parts do, if they have its number. -/
theorem result_step_of_split (hsplit : whole.SplitsInto parts) (hne : parts ≠ []) (hline : l.Reads whole)
    (hparts : ReadAt l.number parts ls) (hopened : ∀ k, s.skip = some k → 0 < k.balance) :
    (s.step l).result = (ls.foldlM step s).result := by
  have hwhole := hsplit.isBinding.1
  -- the first part comes to the number of the line, and there it stays
  obtain ⟨t, ht⟩ : ∃ t : Collector, t = { s with line := l.number } := ⟨_, rfl⟩
  have hstart : ∀ x, (s.step x).result = (t.step x).result := fun x => by rw [ht]; rfl
  have hhere : t.line = l.number := by rw [ht]
  have hskips : t.skip = s.skip := by rw [ht]
  rw [hstart, foldlM_congr_start (hparts.ne_nil hne) fun x _ => hstart x]
  cases hskip : t.skip with
  | some k =>
    have hpass : ∀ x : NumberedLine, x.number = l.number → (∃ part, part.isBinding = true ∧ x.Reads part) →
        (t.step x).result = .ok t := by
      rintro x hnumber ⟨part, hbinding, hreads⟩
      have hbraces := hreads.netBraces_eq.trans (braces_of_isBinding hbinding)
      exact result_step_of_open hskip (hopened k (hskips.symm.trans hskip)) hbraces (hhere.trans hnumber.symm)
    have hrest : Leads step t ls t := leads_self fun x hx => by
      obtain ⟨hnumber, hreads⟩ := hparts.mem hsplit hx
      exact hpass x hnumber hreads
    exact (hpass l rfl ⟨whole, hwhole, hline⟩).trans hrest.symm
  | none =>
    rw [result_step_of_binding hwhole hskip hline hhere, hsplit.bind_eq]
    refine (scopesPart.result_foldlM (fun t => t.line = l.number ∧ t.skip = none) (fun _ _ h => h) ?_
      (hparts.binding hsplit) ⟨hhere, hskip⟩).symm
    rintro t x part ⟨hhere, hskip⟩ ⟨hbinding, hnumber, hreads⟩
    rw [result_step_of_binding hbinding hskip hreads (hhere.trans hnumber.symm), hnumber]
    rfl

end Collector

/-! ### The second pass -/

namespace Checker

variable {functions : Functions} {s : Checker} {b : OpenBlock} {outer : List OpenBlock}

/-- The variables in sight of the second pass. -/
def scopesPart : Part Checker Scopes :=
  ⟨scopes, fun s scopes => { s with scopes }, fun _ _ => rfl, fun _ _ _ => rfl, fun _ => rfl⟩

/-- Outside functions only assignments are made once more. -/
theorem result_step_outside_of_binding {a : Statement} (ha : a.isBinding = true) (houtside : s.blocks = [])
    (hl : l.Reads a) (hhere : s.line = l.number) :
    (s.step functions l).result = (s.withScopes (a.replay l.number s.scopes)).result := by
  rw [result_step_of_outside houtside hl, ← hhere]
  cases a with
  | declaration d => rfl
  | assignment as => rfl
  | _ => cases ha

/-- Inside a block the line is no `return`. -/
theorem result_step_inside_of_binding {a : Statement} (ha : a.isBinding = true) (hinside : s.blocks = b :: outer)
    (hl : l.Reads a) :
    (s.step functions l).result =
      (withScopes { s with line := l.number, blocks := ⟨b.opener, false⟩ :: outer } (a.bind l.number s.scopes)).result := by
  rw [result_step_of_inside hinside hl]
  cases a with
  | declaration d => rfl
  | assignment as => rfl
  | _ => cases ha

theorem result_step_outside_of_split (hsplit : whole.SplitsInto parts) (hne : parts ≠ []) (hline : l.Reads whole)
    (hparts : ReadAt l.number parts ls) (houtside : s.blocks = []) :
    (s.step functions l).result = (ls.foldlM (step functions) s).result := by
  obtain ⟨t, ht⟩ : ∃ t : Checker, t = { s with line := l.number } := ⟨_, rfl⟩
  have hstart : ∀ x, (s.step functions x).result = (t.step functions x).result := fun x => by rw [ht]; rfl
  have hhere : t.line = l.number := by rw [ht]
  have hblocks : t.blocks = [] := by rw [ht]; exact houtside
  rw [hstart, foldlM_congr_start (hparts.ne_nil hne) fun x _ => hstart x,
    result_step_outside_of_binding hsplit.isBinding.1 hblocks hline hhere, hsplit.replay_eq]
  refine (scopesPart.result_foldlM (fun t => t.line = l.number ∧ t.blocks = []) (fun _ _ h => h) ?_
    (hparts.binding hsplit) ⟨hhere, hblocks⟩).symm
  rintro t x part ⟨hhere, hblocks⟩ ⟨hbinding, hnumber, hreads⟩
  rw [result_step_outside_of_binding hbinding hblocks hreads (hhere.trans hnumber.symm), hnumber]
  rfl

theorem result_step_inside_of_split (hsplit : whole.SplitsInto parts) (hne : parts ≠ []) (hline : l.Reads whole)
    (hparts : ReadAt l.number parts ls) (hinside : s.blocks = b :: outer) :
    (s.step functions l).result = (ls.foldlM (step functions) s).result := by
  -- behind any of the parts the last line is no `return`
  obtain ⟨t, ht⟩ : ∃ t : Checker, t = { s with line := l.number, blocks := ⟨b.opener, false⟩ :: outer } := ⟨_, rfl⟩
  have hstart : ∀ x ∈ ls, (s.step functions x).result = (t.step functions x).result := by
    intro x hx
    obtain ⟨-, part, hbinding, hreads⟩ := hparts.mem hsplit hx
    rw [result_step_inside_of_binding hbinding hinside hreads, ht, result_step_inside_of_binding hbinding rfl hreads]
  have hhere : t.line = l.number := by rw [ht]
  have hblocks : t.blocks = ⟨b.opener, false⟩ :: outer := by rw [ht]
  have hwhole : (s.step functions l).result = (t.withScopes (whole.bind l.number t.scopes)).result := by
    rw [result_step_inside_of_binding hsplit.isBinding.1 hinside hline, ht]
  rw [hwhole, hsplit.bind_eq, foldlM_congr_start (hparts.ne_nil hne) hstart]
  refine (scopesPart.result_foldlM (fun t => t.line = l.number ∧ t.blocks = ⟨b.opener, false⟩ :: outer)
    (fun _ _ h => h) ?_ (hparts.binding hsplit) ⟨hhere, hblocks⟩).symm
  rintro t x part ⟨hhere, hblocks⟩ ⟨hbinding, hnumber, hreads⟩
  rw [result_step_inside_of_binding hbinding hblocks hreads, hnumber, ← hhere, ← hblocks]
  rfl

/-- In the second pass a line does what its parts do, if they have its number. -/
theorem result_step_of_split (hsplit : whole.SplitsInto parts) (hne : parts ≠ []) (hline : l.Reads whole)
    (hparts : ReadAt l.number parts ls) :
    (s.step functions l).result = (ls.foldlM (step functions) s).result := by
  cases hblocks : s.blocks with
  | nil => exact result_step_outside_of_split hsplit hne hline hparts hblocks
  | cons b outer => exact result_step_inside_of_split hsplit hne hline hparts hblocks

end Checker

end Split

end LineCheck
