import LineCheck.Pass.Traced
import Mathlib.Data.List.Forall2

/-!
# LineCheck.Proofs.Pass.Agreement — two computations side by side

Two results agree if both are values that are related, or both are failures that are related (`Agree`).  Each way of
putting `Traced` computations together keeps agreement, loops over lists that are related item by item included
(`Agree.foldlM`).  Logs and the states in which a pass stops have no part in it: of a stop only the rejection counts
(`Stop.Related`), with its line under another number perhaps (`Stop.Renumbered`).  Calls that leave their result beside
the state are compared by both (`CallsAgree`).
-/

namespace LineCheck

open Traced

/-- The same rule is broken by the line that `f` gives for the number of the line, or by the program as a whole. -/
def Rejection.renumber (f : Nat → Nat) (rejection : Rejection) : Rejection :=
  ⟨rejection.line.map f, rejection.violation⟩

theorem Rejection.renumber_id (rejection : Rejection) : rejection.renumber (fun n => n) = rejection := by
  rw [renumber, Option.map_id']

/-- The stops are for reasons that are related. -/
def Stop.Related {σ τ : Type} (E : Rejection → Rejection → Prop) (stop : Stop σ) (stop' : Stop τ) : Prop :=
  E stop.rejection stop'.rejection

/-- The second stop is for the reason that the first one is for, up to the number of the line. -/
def Stop.Renumbered {σ τ : Type} (f : Nat → Nat) (stop : Stop σ) (stop' : Stop τ) : Prop :=
  stop'.rejection = stop.rejection.renumber f

/-- Both are values, which are related by `R`, or both are failures, which are related by `E`. -/
inductive Agree {ε δ α β : Type} (E : ε → δ → Prop) (R : α → β → Prop) : Except ε α → Except δ β → Prop where
  | ok {a : α} {b : β} (value : R a b) : Agree E R (.ok a) (.ok b)
  | error {e : ε} {d : δ} (failure : E e d) : Agree E R (.error e) (.error d)

/-- The calls come to the same result, and leave states that are related. -/
structure CallsAgree {σ τ : Type} (R : σ → τ → Prop) (x : Except Violation Unit × σ) (y : Except Violation Unit × τ) :
    Prop where
  result : y.1 = x.1
  state : R x.2 y.2

namespace Agree

section Composition

variable {ε δ α β γ κ : Type} {E : ε → δ → Prop} {R : α → β → Prop} {S : γ → κ → Prop} {x : Traced ε α} {y : Traced δ β}

theorem bind {f : α → Traced ε γ} {g : β → Traced δ κ} (h : Agree E R x.result y.result)
    (hfg : ∀ a b, R a b → Agree E S (f a).result (g b).result) : Agree E S (x >>= f).result (y >>= g).result := by
  obtain ⟨log, result⟩ := x
  obtain ⟨log', result'⟩ := y
  rw [result_bind, result_bind]
  dsimp only at h
  cases h with
  | ok value => exact hfg _ _ value
  | error failure => exact .error failure

theorem mono {R' : α → β → Prop} {x : Except ε α} {y : Except δ β} (h : Agree E R x y) (hR : ∀ a b, R a b → R' a b) :
    Agree E R' x y := by
  cases h with
  | ok value => exact .ok (hR _ _ value)
  | error failure => exact .error failure

theorem mono_error {E' : ε → δ → Prop} {x : Except ε α} {y : Except δ β} (h : Agree E R x y)
    (hE : ∀ e d, E e d → E' e d) : Agree E' R x y := by
  cases h with
  | ok value => exact .ok value
  | error failure => exact .error (hE _ _ failure)

theorem map {f : α → γ} {g : β → κ} (h : Agree E R x.result y.result) (hfg : ∀ a b, R a b → S (f a) (g b)) :
    Agree E S (f <$> x).result (g <$> y).result := by
  rw [← bind_pure_comp, ← bind_pure_comp]
  exact h.bind fun a b hab => .ok (hfg a b hab)

theorem mapError {ε' δ' : Type} {E' : ε' → δ' → Prop} {f : ε → ε'} {g : δ → δ'} (h : Agree E R x.result y.result)
    (hfg : ∀ e d, E e d → E' (f e) (g d)) : Agree E' R (x.mapError f).result (y.mapError g).result := by
  obtain ⟨log, result⟩ := x
  obtain ⟨log', result'⟩ := y
  rw [result_mapError, result_mapError]
  dsimp only at h
  cases h with
  | ok value => exact .ok value
  | error failure => exact .error (hfg _ _ failure)

/-- What every pair of related items keeps, loops over related lists keep. -/
theorem foldlM {f : α → γ → Traced ε α} {g : β → κ → Traced δ β} {cs : List γ} {ds : List κ}
    (hitems : List.Forall₂ S cs ds)
    (hstep : ∀ a b c d, R a b → S c d → Agree E R (f a c).result (g b d).result) {a : α} {b : β} (hab : R a b) :
    Agree E R (cs.foldlM f a).result (ds.foldlM g b).result := by
  induction hitems generalizing a b with
  | nil => exact .ok hab
  | cons hitem _ ih =>
    rw [List.foldlM_cons, List.foldlM_cons]
    exact (hstep a b _ _ hab hitem).bind fun _ _ => ih

end Composition

variable {σ τ α β : Type} {R : α → β → Prop} {f : Nat → Nat} {s : σ} {t : τ} {number number' : Nat}

theorem stop {rejection rejection' : Rejection} (h : rejection' = rejection.renumber f) :
    Agree (Stop.Renumbered f) R (Traced.stop rejection s).result (Traced.stop rejection' t).result :=
  .error h

theorem stopAt (hnumber : number' = f number) (v : Violation) :
    Agree (Stop.Renumbered f) R (Traced.stop (.atLine number v) s).result
      (Traced.stop (.atLine number' v) t).result := by
  subst hnumber
  exact .error rfl

/-- Where a rule is broken on one side, it is broken on the other. -/
theorem require {x : Except Violation α} {y : Except Violation β} (hnumber : number' = f number) (h : Agree Eq R x y) :
    Agree (Stop.Renumbered f) R (Traced.require number s x).result (Traced.require number' t y).result := by
  cases h with
  | ok value => exact .ok value
  | error failure =>
    subst failure
    exact stopAt hnumber _

/-- Where a call breaks a rule on one side, it does on the other. -/
theorem proceed {R : σ → τ → Prop} {x : Except Violation Unit × σ} {y : Except Violation Unit × τ}
    (hnumber : number' = f number) (h : CallsAgree R x y) :
    Agree (Stop.Renumbered f) R (Traced.proceed number x).result (Traced.proceed number' y).result := by
  obtain ⟨result, s⟩ := x
  obtain ⟨result', t⟩ := y
  obtain ⟨rfl, hstate⟩ := h
  cases result' with
  | ok _ => exact .ok hstate
  | error v => exact stopAt hnumber v

end Agree

end LineCheck
