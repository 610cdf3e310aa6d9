import LineCheck.Pass.Binding
import LineCheck.Proofs.Pass.Leads
import LineCheck.Proofs.Symbol.Env

/-!
# LineCheck.Proofs.Pass.Binding — declarations and assignments as both passes make them

A line that declares or assigns succeeds exactly where its items are legal one after the other (`of_perform`,
`exists_perform` and their like), and where it fails the line itself breaks one of the rules on statements.
-/

namespace LineCheck

open Traced

/-! ### Failures -/

/-- The rules on single statements, which look at the variables in sight and at the functions. -/
def Violation.ofRules : List Violation :=
  [.invalidAssignment, .invalidBooleanExpression, .invalidParameterList, .variableExists, .variableNotFound,
    .changeFinal, .functionNotFound]

/-- Line `number` breaks one of the rules on single statements. -/
def Stop.BreaksRule {σ : Type} (stop : Stop σ) (number : Nat) : Prop :=
  ∃ v ∈ Violation.ofRules, stop.rejection = .atLine number v

theorem Traced.result_require_eq_error {σ α : Type} {number : Nat} {state : σ} {x : Except Violation α} {stop : Stop σ}
    (h : (require number state x).result = .error stop) : ∃ v, x = .error v ∧ stop = ⟨.atLine number v, state⟩ := by
  cases x with
  | ok a => cases h
  | error v => cases h; exact ⟨v, rfl, rfl⟩

theorem Traced.result_proceed_eq_error {σ : Type} {number : Nat} {x : Except Violation Unit × σ} {stop : Stop σ}
    (h : (proceed number x).result = .error stop) :
    ∃ v, x = (.error v, stop.state) ∧ stop.rejection = .atLine number v := by
  obtain ⟨result, state⟩ := x
  cases result with
  | ok _ => cases h
  | error v => cases h; exact ⟨v, rfl, rfl⟩

/-! A rule that is broken is one of those on single statements, and leaves the variables as they were. -/

theorem Scopes.error_of_declare {s s' : Scopes} {v : Variable} {e : Violation} (h : s.declare v = (.error e, s')) :
    e = .variableExists ∧ s' = s := by
  rcases s.declare_cases v with ⟨s', hok⟩ | ⟨herr, -⟩
  · rw [hok] at h; cases h
  · rw [herr] at h; cases h; exact ⟨rfl, rfl⟩

theorem Declarator.error_of_declareIn {d : Declarator} {isFinal : Bool} {ty : Ty} {s s' : Scopes} {e : Violation}
    (h : d.declareIn isFinal ty s = (.error e, s')) : e ∈ Violation.ofRules ∧ s' = s := by
  unfold declareIn at h
  split at h
  · obtain ⟨rfl, hs⟩ := Scopes.error_of_declare h
    exact ⟨by decide, hs⟩
  · cases h
    exact ⟨by decide, rfl⟩

theorem Assignment.error_of_applyTo {a : Assignment} {s s' : Scopes} {e : Violation}
    (h : a.applyTo s = (.error e, s')) : e ∈ Violation.ofRules ∧ s' = s := by
  obtain ⟨e', he, hrefused⟩ | ⟨v, -, -, -, hrecorded⟩ := a.applyTo_cases s
  · rw [hrefused] at h
    cases h
    have hrules : ∀ e ∈ [Violation.variableNotFound, .changeFinal, .invalidAssignment], e ∈ Violation.ofRules := by
      decide
    exact ⟨hrules e he, rfl⟩
  · rw [hrecorded] at h
    cases h

theorem Param.error_of_declareIn {p : Param} {s s' : Scopes} {e : Violation} (h : p.declareIn s = (.error e, s')) :
    e ∈ Violation.ofRules ∧ s' = s := by
  obtain ⟨rfl, hs⟩ := Scopes.error_of_declare h
  exact ⟨by decide, hs⟩

theorem Call.error_of_check {c : Call} {functions : Functions} {s : Scopes} {e : Violation}
    (h : c.check functions s = .error e) : e ∈ Violation.ofRules := by
  unfold check at h
  split at h
  · next e' he =>
    cases h
    unfold Functions.params at he
    split at he
    · cases he
    · cases he; decide
  · split at h <;> cases h
    decide

theorem Condition.error_of_check {c : Condition} {s : Scopes} {e : Violation} (h : c.check s = .error e) :
    e ∈ Violation.ofRules := by
  unfold check at h
  split at h <;> cases h
  decide

/-- A fold of steps that each break a rule of line `number` where they fail breaks one itself where it fails. -/
theorem breaksRule_of_foldlM {σ α : Type} {number : Nat} {step : σ → α → Traced (Stop σ) σ}
    (hstep : ∀ s a stop, (step s a).result = .error stop → stop.BreaksRule number) {s : σ} {as : List α} {stop : Stop σ}
    (h : (as.foldlM step s).result = .error stop) : stop.BreaksRule number := by
  obtain ⟨before, a, after, s', -, -, herr⟩ := exists_leads_of_result_eq_error h
  exact hstep s' a stop herr

variable {number : Nat} {s s' : Scopes} {stop : Stop Scopes}

theorem Declaration.breaksRule {d : Declaration} (h : (d.perform number s).result = .error stop) :
    stop.BreaksRule number := by
  refine breaksRule_of_foldlM (fun s v stop h => ?_) h
  obtain hdeclare | ⟨s', -, hemit⟩ := result_bind_eq_error h
  · obtain ⟨e, hrule, hrejection⟩ := result_proceed_eq_error hdeclare
    exact ⟨e, (Declarator.error_of_declareIn hrule).1, hrejection⟩
  · cases hemit

theorem breaksRule_performAll {as : List Assignment} (h : (performAll as number s).result = .error stop) :
    stop.BreaksRule number := by
  refine breaksRule_of_foldlM (fun s a stop h => ?_) h
  obtain ⟨e, hrule, hrejection⟩ := result_proceed_eq_error h
  exact ⟨e, (Assignment.error_of_applyTo hrule).1, hrejection⟩

theorem Header.breaksRule {hd : Header} (h : (hd.declareParams number s).result = .error stop) :
    stop.BreaksRule number := by
  refine breaksRule_of_foldlM (fun s p stop h => ?_) h
  obtain ⟨e, hrule, hrejection⟩ := result_proceed_eq_error h
  exact ⟨e, (Param.error_of_declareIn hrule).1, hrejection⟩

/-! ### Declarations -/

theorem Declaration.result_performOne_eq_ok_iff {d : Declaration} {v : Declarator} :
    (d.performOne number s v).result = .ok s' ↔ v.declareIn d.isFinal d.ty s = (.ok (), s') := by
  rw [performOne, result_bind_eq_ok_iff]
  constructor
  · rintro ⟨next, hnext, h⟩
    cases h
    exact result_proceed_eq_ok_iff.mp hnext
  · exact fun h => ⟨s', result_proceed_eq_ok_iff.mpr h, rfl⟩

theorem Declaration.of_performOne {d : Declaration} {vs : List Declarator}
    (h : Leads (d.performOne number) s vs s') : Declares d.isFinal d.ty s.env vs s'.env ∧ s.Keeps s' := by
  induction vs generalizing s with
  | nil => exact leads_nil.mp h ▸ ⟨.nil, .refl s⟩
  | cons v vs ih =>
    obtain ⟨s₁, h₁, h₂⟩ := leads_cons.mp h
    obtain ⟨hfits, hfresh, henv, hkeeps⟩ := Declarator.of_declareIn (result_performOne_eq_ok_iff.mp h₁)
    obtain ⟨hrest, hkeeps'⟩ := ih h₂
    exact ⟨.cons hfits hfresh (henv ▸ hrest), hkeeps.trans hkeeps'⟩

theorem Declaration.of_perform {d : Declaration} (h : (d.perform number s).result = .ok s') :
    Declares d.isFinal d.ty s.env d.declarators s'.env ∧ s.Keeps s' :=
  of_performOne h

theorem Declaration.exists_performOne {d : Declaration} {vs : List Declarator} {env env' : Env}
    (h : Declares d.isFinal d.ty env vs env') (hs : s.env = env) :
    ∃ s', Leads (d.performOne number) s vs s' ∧ s'.env = env' := by
  induction h generalizing s with
  | nil => exact ⟨s, leads_nil.mpr rfl, hs⟩
  | cons fits fresh _ ih =>
    subst hs
    obtain ⟨s₁, h₁⟩ := Declarator.exists_declareIn fits fresh
    obtain ⟨s', hlead, henv⟩ := ih (Declarator.of_declareIn h₁).2.2.1
    exact ⟨s', leads_cons.mpr ⟨s₁, result_performOne_eq_ok_iff.mpr h₁, hlead⟩, henv⟩

theorem Declaration.exists_perform {d : Declaration} {env' : Env} (number : Nat)
    (h : Declares d.isFinal d.ty s.env d.declarators env') :
    ∃ s', (d.perform number s).result = .ok s' ∧ s'.env = env' :=
  exists_performOne h rfl

/-! ### Assignments -/

theorem of_performAll {as : List Assignment} (h : (performAll as number s).result = .ok s') :
    Assigns s.env as s'.env ∧ s.Keeps s' := by
  change Leads (performOne number) s as s' at h
  induction as generalizing s with
  | nil => exact leads_nil.mp h ▸ ⟨.nil, .refl s⟩
  | cons a as ih =>
    obtain ⟨s₁, h₁, h₂⟩ := leads_cons.mp h
    obtain ⟨st, htarget, hopen, hfits, henv, hkeeps⟩ := Assignment.of_applyTo (result_proceed_eq_ok_iff.mp h₁)
    obtain ⟨hrest, hkeeps'⟩ := ih h₂
    exact ⟨.cons htarget hopen hfits (henv ▸ hrest), hkeeps.trans hkeeps'⟩

theorem exists_leads_performOne {as : List Assignment} {env env' : Env} (h : Assigns env as env') (hs : s.env = env) :
    ∃ s', Leads (performOne number) s as s' ∧ s'.env = env' := by
  induction h generalizing s with
  | nil => exact ⟨s, leads_nil.mpr rfl, hs⟩
  | cons target changeable fits _ ih =>
    subst hs
    obtain ⟨s₁, h₁⟩ := Assignment.exists_applyTo target changeable fits
    obtain ⟨-, -, -, -, henv₁, -⟩ := Assignment.of_applyTo h₁
    obtain ⟨s', hlead, henv⟩ := ih henv₁
    exact ⟨s', leads_cons.mpr ⟨s₁, result_proceed_eq_ok_iff.mpr h₁, hlead⟩, henv⟩

theorem exists_performAll {as : List Assignment} {env' : Env} (number : Nat) (h : Assigns s.env as env') :
    ∃ s', (performAll as number s).result = .ok s' ∧ s'.env = env' :=
  exists_leads_performOne h rfl

/-- Assignments that change nothing of what the rules look at. -/
theorem env_of_performAll_replay {as : List Assignment} (h : (performAll as number s).result = .ok s')
    (hreplay : Assigns s.env as s.env) : s'.env = s.env :=
  (of_performAll h).1.unique hreplay

/-! ### Parameters -/

theorem Layers.inner_add_eq_none_iff {env : Env} {name other : String} {st : Standing} :
    (env.add name st).inner other = none ↔ other ≠ name ∧ env.inner other = none := by
  by_cases h : other = name
  · subst h
    simp [Layers.add]
  · simp [Layers.add, h]

theorem of_declareParam {ps : List Param} (h : Leads (declareParam number) s ps s') :
    (ps.map Param.name).Nodup ∧ (∀ p ∈ ps, s.env.inner p.name = none) ∧ s'.env = s.env.withParams ps ∧ s.Keeps s' := by
  induction ps generalizing s with
  | nil => exact leads_nil.mp h ▸ ⟨.nil, fun _ hp => absurd hp List.not_mem_nil, rfl, .refl s⟩
  | cons p ps ih =>
    obtain ⟨s₁, h₁, h₂⟩ := leads_cons.mp h
    obtain ⟨hfresh, henv, hkeeps⟩ := Param.of_declareIn (result_proceed_eq_ok_iff.mp h₁)
    obtain ⟨hnodup, hrest, henv', hkeeps'⟩ := ih h₂
    rw [henv] at hrest henv'
    have hnew : ∀ q ∈ ps, q.name ≠ p.name ∧ s.env.inner q.name = none := fun q hq =>
      Layers.inner_add_eq_none_iff.mp (hrest q hq)
    refine ⟨?_, ?_, henv', hkeeps.trans hkeeps'⟩
    · rw [List.map_cons, List.nodup_cons]
      refine ⟨fun hmem => ?_, hnodup⟩
      obtain ⟨q, hq, hname⟩ := List.mem_map.mp hmem
      exact (hnew q hq).1 hname
    · intro q hq
      rcases List.mem_cons.mp hq with rfl | hq
      · exact hfresh
      · exact (hnew q hq).2

theorem exists_leads_declareParam {ps : List Param} (number : Nat) (hnodup : (ps.map Param.name).Nodup)
    (hfresh : ∀ p ∈ ps, s.env.inner p.name = none) : ∃ s', Leads (declareParam number) s ps s' := by
  induction ps generalizing s with
  | nil => exact ⟨s, leads_nil.mpr rfl⟩
  | cons p ps ih =>
    rw [List.map_cons, List.nodup_cons] at hnodup
    obtain ⟨s₁, h₁⟩ := Param.exists_declareIn (hfresh p List.mem_cons_self)
    have hrest : ∀ q ∈ ps, s₁.env.inner q.name = none := by
      intro q hq
      rw [(Param.of_declareIn h₁).2.1, Layers.inner_add_eq_none_iff]
      refine ⟨fun hname => hnodup.1 ?_, hfresh q (List.mem_cons_of_mem p hq)⟩
      exact hname ▸ List.mem_map_of_mem hq
    obtain ⟨s', hlead⟩ := ih hnodup.2 hrest
    exact ⟨s', leads_cons.mpr ⟨s₁, result_proceed_eq_ok_iff.mpr h₁, hlead⟩⟩

end LineCheck
