import LineCheck.Pass.Event

/-!
# LineCheck.Pass.Traced — results with a log

A `Traced` computation gives a value or fails, and either way it leaves the events that happened up to then.  The log
is only added to, and no step can look at it: the result of a sequence is the sequence of the results (`result_bind`),
so whatever is to be known of a verdict is proved on results alone.
-/

namespace LineCheck

/-- A result, or the reason why there is none, and what happened on the way. -/
structure Traced (ε α : Type) where
  log : List Event
  result : Except ε α

namespace Traced

variable {ε δ α β : Type}

/-- A value, and no event. -/
protected def pure (a : α) : Traced ε α :=
  ⟨[], .ok a⟩

/-- One computation and then another, unless the first one fails. -/
protected def bind (x : Traced ε α) (f : α → Traced ε β) : Traced ε β :=
  match x.result with
  | .error e => ⟨x.log, .error e⟩
  | .ok a =>
    let y := f a
    ⟨x.log ++ y.log, y.result⟩

instance : Monad (Traced ε) where
  pure := Traced.pure
  bind := Traced.bind

/-- A failure, and no event. -/
def fail (e : ε) : Traced ε α :=
  ⟨[], .error e⟩

/-- An event. -/
def emit (event : Event) : Traced ε Unit :=
  ⟨[event], .ok ()⟩

/-- An event, if there is one. -/
def emit? (event : Option Event) : Traced ε Unit :=
  ⟨event.toList, .ok ()⟩

/-- The same computation with another reason for its failure. -/
def mapError (f : ε → δ) (x : Traced ε α) : Traced δ α :=
  ⟨x.log, x.result.mapError f⟩

@[ext] theorem ext {x y : Traced ε α} (hlog : x.log = y.log) (hresult : x.result = y.result) : x = y := by
  cases x
  cases y
  simp_all

@[simp] theorem result_pure (a : α) : (pure a : Traced ε α).result = .ok a := rfl

@[simp] theorem log_pure (a : α) : (pure a : Traced ε α).log = [] := rfl

@[simp] theorem result_fail (e : ε) : (fail e : Traced ε α).result = .error e := rfl

@[simp] theorem result_emit (event : Event) : (emit event : Traced ε Unit).result = .ok () := rfl

@[simp] theorem result_emit? (event : Option Event) : (emit? event : Traced ε Unit).result = .ok () := rfl

@[simp] theorem result_mapError (f : ε → δ) (x : Traced ε α) : (x.mapError f).result = x.result.mapError f := rfl

/-- Another reason for failure makes no failure. -/
theorem result_mapError_eq_ok_iff {f : ε → δ} {x : Traced ε α} {a : α} :
    (x.mapError f).result = .ok a ↔ x.result = .ok a := by
  obtain ⟨log, result⟩ := x
  cases result with
  | error e => exact ⟨fun h => (by cases h), fun h => (by cases h)⟩
  | ok b => exact ⟨fun h => (by cases h; rfl), fun h => (by cases h; rfl)⟩

/-- The log has no say in the result. -/
theorem result_bind (x : Traced ε α) (f : α → Traced ε β) :
    (x >>= f).result = x.result >>= fun a => (f a).result := by
  obtain ⟨log, result⟩ := x
  cases result <;> rfl

/-- A sequence succeeds if each of its steps does. -/
theorem result_bind_eq_ok_iff {x : Traced ε α} {f : α → Traced ε β} {b : β} :
    (x >>= f).result = .ok b ↔ ∃ a, x.result = .ok a ∧ (f a).result = .ok b := by
  rw [result_bind]
  cases x.result <;> simp [bind, Except.bind]

/-- A sequence fails where its first step does, or its second. -/
theorem result_bind_eq_error {x : Traced ε α} {f : α → Traced ε β} {e : ε}
    (h : (x >>= f).result = .error e) : x.result = .error e ∨ ∃ a, x.result = .ok a ∧ (f a).result = .error e := by
  rw [result_bind] at h
  cases hx : x.result with
  | error e' => rw [hx] at h; cases h; exact .inl rfl
  | ok a => rw [hx] at h; exact .inr ⟨a, rfl, h⟩

protected theorem id_map (x : Traced ε α) : id <$> x = x := by
  obtain ⟨log, result⟩ := x
  cases result with
  | error e => rfl
  | ok a => exact Traced.ext (List.append_nil _) rfl

protected theorem bind_assoc {γ : Type} (x : Traced ε α) (f : α → Traced ε β) (g : β → Traced ε γ) :
    x >>= f >>= g = x >>= fun a => f a >>= g := by
  obtain ⟨log, result⟩ := x
  cases result with
  | error e => rfl
  | ok a => cases h : (f a).result <;> simp [bind, Traced.bind, h]

instance : LawfulMonad (Traced ε) :=
  LawfulMonad.mk' (Traced ε) Traced.id_map (fun _ _ => rfl) Traced.bind_assoc

end Traced

/-- Why a pass ended early, and the state that it was in. -/
structure Stop (σ : Type) where
  rejection : Rejection
  state : σ
  deriving Repr

namespace Traced

variable {α σ : Type}

/-- The pass ends in this state. -/
def stop (rejection : Rejection) (state : σ) : Traced (Stop σ) α :=
  fail ⟨rejection, state⟩

/-- Go on if no rule is broken; otherwise line `number` ends the pass in this state. -/
def require (number : Nat) (state : σ) : Except Violation α → Traced (Stop σ) α
  | .ok a => pure a
  | .error v => stop (.atLine number v) state

/-- Go on in the state that a call leaves; if it broke a rule, line `number` ends the pass in that state. -/
def proceed (number : Nat) : Except Violation Unit × σ → Traced (Stop σ) σ
  | (.ok _, state) => pure state
  | (.error v, state) => stop (.atLine number v) state

@[simp] theorem result_stop (rejection : Rejection) (state : σ) :
    (stop rejection state : Traced (Stop σ) α).result = .error ⟨rejection, state⟩ := rfl

@[simp] theorem result_require_eq_ok_iff {number : Nat} {state : σ} {x : Except Violation α} {a : α} :
    (require number state x).result = .ok a ↔ x = .ok a := by
  cases x <;> simp [require]

@[simp] theorem result_proceed_eq_ok_iff {number : Nat} {x : Except Violation Unit × σ} {state : σ} :
    (proceed number x).result = .ok state ↔ x = (.ok (), state) := by
  obtain ⟨result, left⟩ := x
  cases result <;> simp [proceed]

/-- Read a line as a statement; if it is none, it ends the pass in this state. -/
def readLine (number : Nat) (text : String) (state : σ) : Traced (Stop σ) Line :=
  match Line.ofText number text with
  | .ok line => ⟨[.classified line], .ok line⟩
  | .error e => ⟨[.malformed number e], .error ⟨.atLine number .invalidSyntax, state⟩⟩

/-- Reading succeeds on the lines that are statements. -/
theorem result_readLine_eq_ok_iff {number : Nat} {text : String} {state : σ} {line : Line} :
    (readLine number text state).result = .ok line ↔ Line.ofText number text = .ok line := by
  unfold readLine
  cases Line.ofText number text <;> simp

end Traced

end LineCheck
