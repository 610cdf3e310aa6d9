import LineCheck.Proofs.Program.Outline
import LineCheck.Proofs.Symbol.Env

/-!
# LineCheck.Proofs.Program.Legal — legal programs

The rules of the language, said of programs as trees and of environments: there are no passes here, no tables, no
counters and no line numbers.  The globals run through the program from the empty environment and leave out the
functions (`Globals`); each function is judged in the environment that they end with (`Function.Legal`), with its
parameters in a scope of their own and with the headers of all functions known.
-/

namespace LineCheck

/-- The call names a function and gives it as many values as it takes, each of which fits. -/
def Call.Legal (headers : List Header) (env : Env) (c : Call) : Prop :=
  ∃ h ∈ headers, h.name = c.name ∧ List.Forall₂ (fun (a : Value) (p : Param) => a.Fits p.ty env) c.args h.params

/-- All operands may stand for truth values. -/
def Condition.Legal (env : Env) (c : Condition) : Prop :=
  ∀ v ∈ c.operands, v.Fits .boolean env

/-- The line is legal in the first environment and leads to the second. -/
inductive PlainLine.Legal : Env → PlainLine → Env → Prop where
  | blank {env : Env} : Legal env .blank env
  | comment {env : Env} : Legal env .comment env
  | declaration {env env' : Env} {d : Declaration} (declares : Declares d.isFinal d.ty env d.declarators env') :
      Legal env (.declaration d) env'
  | assignment {env env' : Env} {as : List Assignment} (assigns : Assigns env as env') : Legal env (.assignment as) env'

/-- The lines of the body are legal from the first environment on and lead to the second; the block behind a condition
has a scope of its own. -/
inductive Body.Legal (headers : List Header) : Env → Body → Env → Prop where
  | nil {env : Env} : Legal headers env .nil env
  | plain {env env₁ env' : Env} {line : PlainLine} {rest : Body} (first : line.Legal env env₁)
      (more : Legal headers env₁ rest env') : Legal headers env (.plain line rest) env'
  | call {env env' : Env} {c : Call} {rest : Body} (first : c.Legal headers env) (more : Legal headers env rest env') :
      Legal headers env (.call c rest) env'
  | return {env env' : Env} {rest : Body} (more : Legal headers env rest env') : Legal headers env (.return rest) env'
  | guard {env env₁ env' : Env} {w : GuardWord} {c : Condition} {inner rest : Body} (first : c.Legal env)
      (block : Legal headers env.openScope inner env₁) (more : Legal headers env₁.closeScope rest env') :
      Legal headers env (.guard w c inner rest) env'

/-- The last line of the body that says anything is a `return`. -/
def Body.EndsInReturn (body : Body) : Prop :=
  (body.statements.filter fun statement => !statement.isSilent).getLast? = some .return

/-- The function is legal where the globals are these. -/
structure Function.Legal (headers : List Header) (globals : Env) (f : Function) : Prop where
  params : (f.header.params.map Param.name).Nodup
  returns : f.body.EndsInReturn
  body : ∃ env, f.body.Legal headers (Env.withParams globals.openScope f.header.params) env

/-- The lines outside functions are legal one after the other, whatever the functions between them are. -/
inductive Globals : Env → List Item → Env → Prop where
  | nil {env : Env} : Globals env [] env
  | plain {env env₁ env' : Env} {line : PlainLine} {items : List Item} (first : line.Legal env env₁)
      (more : Globals env₁ items env') : Globals env (.plain line :: items) env'
  | function {env env' : Env} {f : Function} {items : List Item} (more : Globals env items env') :
      Globals env (.function f :: items) env'

/-- The headers of the functions in order. -/
def Item.headers (items : List Item) : List Header :=
  (items.filterMap Item.function?).map Function.header

/-- The headers of the functions of the program in order. -/
def Program.headers (p : Program) : List Header :=
  Item.headers p.items

/-- The program is legal: its functions have different names, the lines outside functions are legal in their order, and
each function is legal with the globals that these lines end with. -/
structure Program.Legal (p : Program) : Prop where
  names : (p.headers.map Header.name).Nodup
  lines : ∃ globals, Globals Layers.empty p.items globals ∧
    ∀ f ∈ p.functions, f.Legal p.headers globals

/-! ### Of the headers only their set matters -/

section Headers

variable {headers headers' : List Header}

theorem Call.Legal.of_subset {env : Env} {c : Call} (h : c.Legal headers env) (hsubset : headers ⊆ headers') :
    c.Legal headers' env := by
  obtain ⟨hd, hmem, hcall⟩ := h
  exact ⟨hd, hsubset hmem, hcall⟩

theorem Body.Legal.of_subset {env env' : Env} {body : Body} (h : body.Legal headers env env')
    (hsubset : headers ⊆ headers') : body.Legal headers' env env' := by
  induction h with
  | nil => exact .nil
  | plain first _ ih => exact .plain first ih
  | call first _ ih => exact .call (first.of_subset hsubset) ih
  | «return» _ ih => exact .return ih
  | guard first _ _ ihblock ihmore => exact .guard first ihblock ihmore

theorem Function.Legal.of_subset {globals : Env} {f : Function} (h : f.Legal headers globals)
    (hsubset : headers ⊆ headers') : f.Legal headers' globals := by
  obtain ⟨hparams, hreturns, env, hbody⟩ := h
  exact ⟨hparams, hreturns, env, hbody.of_subset hsubset⟩

end Headers

/-! ### The globals only grow -/

theorem PlainLine.Legal.grows {env env' : Env} {line : PlainLine} (h : line.Legal env env') (houter : env.outer = []) :
    env.Grows env' := by
  cases h with
  | blank => exact .refl _
  | comment => exact .refl _
  | declaration declares => exact declares.grows houter
  | assignment assigns => exact assigns.grows

theorem PlainLine.Legal.outer_eq_nil {env env' : Env} {line : PlainLine} (h : line.Legal env env')
    (houter : env.outer = []) : env'.outer = [] := by
  cases h with
  | blank => exact houter
  | comment => exact houter
  | declaration declares => exact declares.outer_eq.trans houter
  | assignment assigns => exact assigns.outer_eq_nil houter

theorem Globals.outer_eq_nil {env env' : Env} {items : List Item} (h : Globals env items env')
    (houter : env.outer = []) : env'.outer = [] := by
  induction h with
  | nil => exact houter
  | plain first _ ih => exact ih (first.outer_eq_nil houter)
  | function _ ih => exact ih houter

/-- The globals only grow. -/
theorem Globals.grows {env env' : Env} {items : List Item} (h : Globals env items env') (houter : env.outer = []) :
    env.Grows env' := by
  induction h with
  | nil => exact .refl _
  | plain first _ ih =>
    have houter₁ := first.outer_eq_nil houter
    exact (first.grows houter).trans (ih houter₁)
  | function _ ih => exact ih houter

end LineCheck
