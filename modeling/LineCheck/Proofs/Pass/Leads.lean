import LineCheck.Pass.Traced
import Mathlib.Data.List.Induction

/-!
# LineCheck.Proofs.Pass.Leads — runs of a pass

A pass is a fold of one step over lines.  `Leads step s xs s'` says that the steps over `xs` take the state `s` to `s'`
without a failure, whatever they log.  Runs compose (`leads_append`), and a fold fails where a run comes to an element
that its step refuses (`exists_leads_of_result_eq_error`).

`Through step inside s xs s'` is a run that stays inside until its last state, which may be inside or not.  A run that
starts inside and does not end there begins with one that leaves (`exists_through`), and a run that ends inside ends
with one that has stayed there since it was last outside (`exists_through_of_entered`).
-/

namespace LineCheck

namespace Traced

variable {ε σ α : Type} {step : σ → α → Traced ε σ} {s s' s'' : σ} {x : α} {xs ys : List α}

/-- The steps over `xs` take the state `s` to `s'`. -/
def Leads (step : σ → α → Traced ε σ) (s : σ) (xs : List α) (s' : σ) : Prop :=
  (xs.foldlM step s).result = .ok s'

@[simp] theorem leads_nil : Leads step s [] s' ↔ s = s' := by
  simp [Leads]

theorem leads_cons : Leads step s (x :: xs) s'' ↔ ∃ s', (step s x).result = .ok s' ∧ Leads step s' xs s'' := by
  rw [Leads, List.foldlM_cons, result_bind_eq_ok_iff]
  rfl

theorem leads_singleton : Leads step s [x] s' ↔ (step s x).result = .ok s' := by
  simp [leads_cons]

theorem leads_append :
    Leads step s (xs ++ ys) s'' ↔ ∃ s', Leads step s xs s' ∧ Leads step s' ys s'' := by
  induction xs generalizing s with
  | nil => simp
  | cons x xs ih =>
    rw [List.cons_append, leads_cons]
    constructor
    · rintro ⟨s₁, h₁, h₂⟩
      obtain ⟨s', h₂, h₃⟩ := ih.mp h₂
      exact ⟨s', leads_cons.mpr ⟨s₁, h₁, h₂⟩, h₃⟩
    · rintro ⟨s', h₁, h₂⟩
      obtain ⟨s₁, h₁, h₃⟩ := leads_cons.mp h₁
      exact ⟨s₁, h₁, ih.mpr ⟨s', h₃, h₂⟩⟩

/-- One more step at the end of a run. -/
theorem leads_concat :
    Leads step s (xs ++ [x]) s'' ↔ ∃ s', Leads step s xs s' ∧ (step s' x).result = .ok s'' := by
  simp [leads_append, leads_singleton]

/-- A run ends in one state only. -/
theorem Leads.unique (h : Leads step s xs s') (h' : Leads step s xs s'') : s' = s'' :=
  Except.ok.inj (h.symm.trans h')

/-- The rest of a run from a state that it comes through. -/
theorem Leads.of_append (h : Leads step s (xs ++ ys) s'') (h' : Leads step s xs s') : Leads step s' ys s'' := by
  obtain ⟨s₁, h₁, h₂⟩ := leads_append.mp h
  exact h'.unique h₁ ▸ h₂

/-- What every step keeps, a run keeps. -/
theorem Leads.preserves {P : σ → Prop} (hstep : ∀ s x s', P s → (step s x).result = .ok s' → P s')
    (h : Leads step s xs s') (hs : P s) : P s' := by
  induction xs generalizing s with
  | nil => exact leads_nil.mp h ▸ hs
  | cons x xs ih =>
    obtain ⟨s₁, h₁, h₂⟩ := leads_cons.mp h
    exact ih h₂ (hstep s x s₁ hs h₁)

/-- A fold fails at an element that follows a run and that the step refuses. -/
theorem exists_leads_of_result_eq_error {e : ε} (h : (xs.foldlM step s).result = .error e) :
    ∃ before x after s', xs = before ++ x :: after ∧ Leads step s before s' ∧ (step s' x).result = .error e := by
  induction xs generalizing s with
  | nil => cases h
  | cons x xs ih =>
    rw [List.foldlM_cons, result_bind] at h
    cases hx : (step s x).result with
    | error e' =>
      rw [hx] at h
      exact ⟨[], x, xs, s, rfl, leads_nil.mpr rfl, hx.trans h⟩
    | ok s₁ =>
      rw [hx] at h
      obtain ⟨before, y, after, s', rfl, hlead, herr⟩ := ih h
      exact ⟨x :: before, y, after, s', rfl, leads_cons.mpr ⟨s₁, hx, hlead⟩, herr⟩

/-- The steps over `xs` come to the element `x` in the state `s'`, with `rest` behind it. -/
def Reaches (step : σ → α → Traced ε σ) (s : σ) (xs : List α) (s' : σ) (x : α) (rest : List α) : Prop :=
  ∃ before, xs = before ++ x :: rest ∧ Leads step s before s'

theorem Reaches.mem {rest : List α} (h : Reaches step s xs s' x rest) : x ∈ xs := by
  obtain ⟨before, rfl, -⟩ := h
  exact List.mem_append_right _ List.mem_cons_self

/-- A fold over lines with something done at its end fails at a line or at the end. -/
theorem result_foldlM_bind_eq_error_iff {β : Type} {finish : σ → Traced ε β} {e : ε} :
    (xs.foldlM step s >>= finish).result = .error e ↔
      (∃ s' x rest, Reaches step s xs s' x rest ∧ (step s' x).result = .error e) ∨
        ∃ s', Leads step s xs s' ∧ (finish s').result = .error e := by
  constructor
  · intro h
    rw [result_bind] at h
    cases hfold : (xs.foldlM step s).result with
    | error e' =>
      rw [hfold] at h
      cases h
      obtain ⟨before, x, rest, s', hxs, hlead, herr⟩ := exists_leads_of_result_eq_error hfold
      exact .inl ⟨s', x, rest, ⟨before, hxs, hlead⟩, herr⟩
    | ok s' =>
      rw [hfold] at h
      exact .inr ⟨s', hfold, h⟩
  · rintro (⟨s', x, rest, ⟨before, rfl, hlead⟩, herr⟩ | ⟨s', hlead, hfinish⟩)
    · have hfold : ((before ++ x :: rest).foldlM step s).result = .error e := by
        rw [List.foldlM_append, result_bind, hlead]
        show ((x :: rest).foldlM step s').result = .error e
        rw [List.foldlM_cons, result_bind, herr]
        rfl
      rw [result_bind, hfold]
      rfl
    · rw [result_bind, hlead]
      exact hfinish

/-! ### Runs that stay inside -/

/-- The steps over `xs` take the state `s` to `s'`, and each of them starts inside. -/
inductive Through (step : σ → α → Traced ε σ) (inside : σ → Prop) : σ → List α → σ → Prop where
  | nil {s : σ} : Through step inside s [] s
  | cons {s s' s'' : σ} {x : α} {xs : List α} (start : inside s) (first : (step s x).result = .ok s')
      (rest : Through step inside s' xs s'') : Through step inside s (x :: xs) s''

variable {inside : σ → Prop}

theorem Through.leads (h : Through step inside s xs s') : Leads step s xs s' := by
  induction h with
  | nil => exact leads_nil.mpr rfl
  | cons _ first _ ih => exact leads_cons.mpr ⟨_, first, ih⟩

theorem Through.concat (h : Through step inside s xs s') (hs : inside s') (hx : (step s' x).result = .ok s'') :
    Through step inside s (xs ++ [x]) s'' := by
  induction h with
  | nil => exact .cons hs hx .nil
  | cons start first _ ih => exact .cons start first (ih hs hx)

/-- A run that does not end inside begins with one that leaves. -/
theorem exists_through (h : Leads step s xs s') (hs : ¬inside s') :
    ∃ body after s₁, xs = body ++ after ∧ Through step inside s body s₁ ∧ ¬inside s₁ := by
  induction xs generalizing s with
  | nil => exact ⟨[], [], s, rfl, .nil, leads_nil.mp h ▸ hs⟩
  | cons x xs ih =>
    by_cases hin : inside s
    · obtain ⟨s₁, h₁, h₂⟩ := leads_cons.mp h
      obtain ⟨body, after, s₂, rfl, hthrough, hleft⟩ := ih h₂
      exact ⟨x :: body, after, s₂, rfl, .cons hin h₁ hthrough, hleft⟩
    · exact ⟨[], x :: xs, s, rfl, .nil, hin⟩

/-- A run that ends inside and starts outside enters with one of its steps and stays there. -/
theorem exists_through_of_entered (h : Leads step s xs s') (hs : ¬inside s) (hs' : inside s') :
    ∃ before x body s₁ s₂, xs = before ++ x :: body ∧ Leads step s before s₁ ∧ ¬inside s₁ ∧
      (step s₁ x).result = .ok s₂ ∧ inside s₂ ∧ Through step inside s₂ body s' := by
  induction xs using List.reverseRecOn generalizing s' with
  | nil => exact absurd (leads_nil.mp h ▸ hs') hs
  | append_singleton xs x ih =>
    obtain ⟨s₀, h₀, hx⟩ := leads_concat.mp h
    by_cases hin : inside s₀
    · obtain ⟨before, y, body, s₁, s₂, rfl, hbefore, hout, hy, hin₂, hthrough⟩ := ih h₀ hin
      exact ⟨before, y, body ++ [x], s₁, s₂, by simp, hbefore, hout, hy, hin₂, hthrough.concat hin hx⟩
    · exact ⟨xs, x, [], s₀, s', rfl, h₀, hin, hx, hs', .nil⟩

end Traced

end LineCheck
