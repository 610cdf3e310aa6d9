import LineCheck.Rules
import LineCheck.Proofs.Pass.Agreement
import LineCheck.Proofs.Symbol.Layers
import LineCheck.Proofs.Syntax.Alike

/-!
# LineCheck.Proofs.Symbol.Alike — the rules under new names

Two tables are alike if one can be had from the other by a renaming, where of the recorded values nothing is kept but
whether there is one.  Names are looked up by equality, and new names are different where the old ones are, so looking a
name up in one table and its new name in the other finds entries that are alike (`Table.Alike.find?`).  From there each
operation on scopes and functions, and each rule, goes the same way on both sides: it leaves tables that are alike, or
the same rule is broken (`Scopes.Alike.declare` to `Condition.Alike.check`).
-/

namespace LineCheck

variable {r : Renaming}

/-! ### Variables and functions -/

variable (r) in
structure Variable.Alike (v w : Variable) : Prop where
  name : w.name = r.variableName v.name
  ty : w.ty = v.ty
  isFinal : w.isFinal = v.isFinal
  isAssigned : w.isAssigned = v.isAssigned

variable (r) in
def Table.Alike (t u : Table) : Prop :=
  List.Forall₂ (fun entry entry' => entry'.1 = r.variableName entry.1 ∧ entry.2.Alike r entry'.2) t u

variable (r) in
structure Scopes.Alike (s t : Scopes) : Prop where
  globals : s.globals.Alike r t.globals
  stack : List.Forall₂ (Table.Alike r) s.stack t.stack

variable (r) in
/-- The parameters count and the name, but not the line of the declaration. -/
structure Signature.Alike (s t : Signature) : Prop where
  name : t.name = r.functionName s.name
  params : List.Forall₂ (Param.Alike r) s.params t.params

variable (r) in
def Functions.Alike (f g : Functions) : Prop :=
  List.Forall₂ (Signature.Alike r) f.signatures g.signatures

theorem Variable.Alike.record {v w : Variable} (h : v.Alike r w) (value value' : String) :
    Alike r { v with value := some value } { w with value := some value' } :=
  ⟨h.name, h.ty, h.isFinal, rfl⟩

theorem Param.Alike.ofParam {p q : Param} (h : p.Alike r q) : (Variable.ofParam p).Alike r (.ofParam q) :=
  ⟨h.name, h.ty, h.isFinal, rfl⟩

namespace Table.Alike

variable {t u : Table}

theorem find? (h : t.Alike r u) (name : String) :
    Option.Rel (Variable.Alike r) (t.find? name) (u.find? (r.variableName name)) := by
  have hentry := find?_of_forall₂ h (p := fun entry => entry.1 == name)
    (q := fun entry => entry.1 == r.variableName name) fun entry entry' hkeys => by
      rw [Bool.eq_iff_iff, beq_iff_eq, beq_iff_eq, hkeys.1, r.variableName_injective.eq_iff]
  exact map_rel hentry fun _ _ => And.right

theorem insertUnique (h : t.Alike r u) {v w : Variable} (hvw : v.Alike r w) :
    CallsAgree (Table.Alike r) (t.insertUnique v) (u.insertUnique w) := by
  have hfind := h.find? v.name
  rw [← hvw.name] at hfind
  obtain ⟨hknown, ht⟩ | ⟨hfresh, ht⟩ := t.insertUnique_cases v
  · obtain ⟨-, hu⟩ | ⟨hfresh, -⟩ := u.insertUnique_cases w
    · rw [ht, hu]
      exact ⟨rfl, h⟩
    · exact absurd ((eq_none_iff_of_rel hfind).mpr hfresh) hknown
  · obtain ⟨hknown, -⟩ | ⟨-, hu⟩ := u.insertUnique_cases w
    · exact absurd ((eq_none_iff_of_rel hfind).mp hfresh) hknown
    · rw [ht, hu]
      exact ⟨rfl, .cons ⟨hvw.name, hvw⟩ h⟩

theorem record (h : t.Alike r u) (name value value' : String) :
    (t.record name value).Alike r (u.record (r.variableName name) value') := by
  induction h with
  | nil => exact .nil
  | @cons entry entry' t u hentry hmore ih =>
    obtain ⟨key, v⟩ := entry
    obtain ⟨key', w⟩ := entry'
    obtain ⟨rfl, hvw⟩ := hentry
    by_cases hkey : key = name
    · rw [Table.record, Table.record, if_pos hkey, if_pos (congrArg r.variableName hkey)]
      exact .cons ⟨rfl, hvw.record value value'⟩ hmore
    · rw [Table.record, Table.record, if_neg hkey, if_neg (r.variableName_injective.ne hkey)]
      exact .cons ⟨rfl, hvw⟩ ih

end Table.Alike

namespace Scopes.Alike

variable {s t : Scopes}

theorem openFunction (h : s.Alike r t) : s.openFunction.Alike r t.openFunction :=
  ⟨h.globals, .cons .nil (.cons h.globals .nil)⟩

theorem openBlock (h : s.Alike r t) : s.openBlock.Alike r t.openBlock :=
  ⟨h.globals, .cons .nil h.stack⟩

theorem closeInnermost (h : s.Alike r t) : s.closeInnermost.Alike r t.closeInnermost := by
  obtain ⟨globals, stack⟩ := s
  obtain ⟨globals', stack'⟩ := t
  obtain ⟨hglobals, hstack⟩ := h
  cases hstack with
  | nil => exact ⟨hglobals, .nil⟩
  | cons _ hmore => exact ⟨hglobals, hmore⟩

theorem closeAll (h : s.Alike r t) : s.closeAll.Alike r t.closeAll :=
  ⟨h.globals, .nil⟩

theorem visible (h : s.Alike r t) : List.Forall₂ (Table.Alike r) s.visible t.visible := by
  obtain ⟨globals, stack⟩ := s
  obtain ⟨globals', stack'⟩ := t
  obtain ⟨hglobals, hstack⟩ := h
  cases hstack with
  | nil => exact .cons hglobals .nil
  | cons htable hmore => exact .cons htable hmore

theorem resolve (h : s.Alike r t) (name : String) :
    Option.Rel (Variable.Alike r) (s.resolve name) (t.resolve (r.variableName name)) :=
  findSome?_of_forall₂ h.visible fun _ _ htable => htable.find? name

theorem declare (h : s.Alike r t) {v w : Variable} (hvw : v.Alike r w) :
    CallsAgree (Scopes.Alike r) (s.declare v) (t.declare w) := by
  obtain ⟨globals, stack⟩ := s
  obtain ⟨globals', stack'⟩ := t
  obtain ⟨hglobals, hstack⟩ := h
  cases hstack with
  | nil =>
    obtain ⟨hresult, htable⟩ := Table.Alike.insertUnique hglobals hvw
    exact ⟨hresult, htable, .nil⟩
  | cons htable hmore =>
    obtain ⟨hresult, htable'⟩ := Table.Alike.insertUnique htable hvw
    exact ⟨hresult, hglobals, .cons htable' hmore⟩

theorem recordIn {ts us : List Table} (h : List.Forall₂ (Table.Alike r) ts us) (name value value' : String) :
    List.Forall₂ (Table.Alike r) (Scopes.recordIn name value ts)
      (Scopes.recordIn (r.variableName name) value' us) := by
  induction h with
  | nil => exact .nil
  | @cons t u ts us htable hmore ih =>
    rw [Scopes.recordIn, Scopes.recordIn, isSome_of_rel (htable.find? name)]
    split
    · exact .cons (htable.record name value value') hmore
    · exact .cons htable ih

theorem record (h : s.Alike r t) (name value value' : String) :
    (s.record name value).Alike r (t.record (r.variableName name) value') := by
  obtain ⟨globals, stack⟩ := s
  obtain ⟨globals', stack'⟩ := t
  obtain ⟨hglobals, hstack⟩ := h
  cases hstack with
  | nil => exact ⟨Table.Alike.record hglobals name value value', .nil⟩
  | cons htable hmore => exact ⟨hglobals, recordIn (.cons htable hmore) name value value'⟩

theorem assign (h : s.Alike r t) (name value value' : String) :
    CallsAgree (Scopes.Alike r) (s.assign name value) (t.assign (r.variableName name) value') := by
  obtain ⟨hs, ht⟩ | ⟨v, w, hs, ht, hvw⟩ := none_or_some_of_rel (h.resolve name)
  · rw [assign_eq_variableNotFound hs, assign_eq_variableNotFound ht]
    exact ⟨rfl, h⟩
  · cases hfinal : v.isFinal with
    | true =>
      rw [assign_eq_changeFinal hs hfinal, assign_eq_changeFinal ht (hvw.isFinal.trans hfinal)]
      exact ⟨rfl, h⟩
    | false =>
      rw [assign_eq_ok hs hfinal, assign_eq_ok ht (hvw.isFinal.trans hfinal)]
      exact ⟨rfl, h.record name value value'⟩

end Scopes.Alike

namespace Functions.Alike

variable {f g : Functions}

theorem find? (h : f.Alike r g) (name : String) :
    Option.Rel (Signature.Alike r) (f.find? name) (g.find? (r.functionName name)) :=
  find?_of_forall₂ h fun s t hst => by
    rw [Bool.eq_iff_iff, beq_iff_eq, beq_iff_eq, hst.name, r.functionName_injective.eq_iff]

theorem declare (h : f.Alike r g) {s t : Signature} (hst : s.Alike r t) :
    Agree Eq (Functions.Alike r) (f.declare s) (g.declare t) := by
  have hknown : g.contains t.name = f.contains s.name := by
    rw [hst.name]
    exact isSome_of_rel (h.find? s.name)
  rw [Functions.declare, Functions.declare, hknown]
  split
  · exact .error rfl
  · exact .ok (.cons hst h)

theorem params (h : f.Alike r g) (name : String) :
    Agree Eq (List.Forall₂ (Param.Alike r)) (f.params name) (g.params (r.functionName name)) := by
  have hfind := h.find? name
  rw [Functions.params, Functions.params]
  generalize f.find? name = s at hfind ⊢
  generalize g.find? (r.functionName name) = t at hfind ⊢
  cases hfind with
  | none => exact .error rfl
  | some hst => exact .ok hst.params

end Functions.Alike

/-! ### The rules -/

section Rules

variable {s t : Scopes} {v w : Value}

theorem Literal.Alike.fits {a b : Literal} (h : a.Alike b) (target : Ty) : b.fits target = a.fits target := by
  cases h with
  | @char a b single =>
    have hsingle : (b.toList.length == 3) = (a.toList.length == 3) := by
      rw [Bool.eq_iff_iff, beq_iff_eq, beq_iff_eq, single]
    rw [Literal.fits, Literal.fits, hsingle]
  | _ => rfl

theorem Value.Alike.fits (h : v.Alike r w) (hst : s.Alike r t) (target : Ty) :
    w.fits target t = v.fits target s := by
  cases h with
  | literal alike => exact alike.fits target
  | @name n m hname =>
    subst hname
    have hresolve := hst.resolve n
    rw [Value.fits, Value.fits]
    generalize s.resolve n = a at hresolve ⊢
    generalize t.resolve (r.variableName n) = b at hresolve ⊢
    cases hresolve with
    | none => rfl
    | some hab => dsimp only; rw [hab.isAssigned, hab.ty]

theorem Declarator.Alike.declareIn {d e : Declarator} (h : d.Alike r e) (hst : s.Alike r t) (isFinal : Bool) (ty : Ty) :
    CallsAgree (Scopes.Alike r) (d.declareIn isFinal ty s) (e.declareIn isFinal ty t) := by
  obtain ⟨name, init⟩ := d
  obtain ⟨name', init'⟩ := e
  obtain ⟨rfl, hinit⟩ := h
  rw [Declarator.declareIn, Declarator.declareIn]
  dsimp only at hinit ⊢
  cases hinit with
  | none => exact hst.declare ⟨rfl, rfl, rfl, rfl⟩
  | some hvalue =>
    rw [Option.all_some, Option.all_some, hvalue.fits hst ty]
    split
    · exact hst.declare ⟨rfl, rfl, rfl, rfl⟩
    · exact ⟨rfl, hst⟩

theorem Assignment.Alike.applyTo {a b : Assignment} (h : a.Alike r b) (hst : s.Alike r t) :
    CallsAgree (Scopes.Alike r) (a.applyTo s) (b.applyTo t) := by
  have hresolve := hst.resolve a.name
  have hassign := hst.assign a.name a.value.text b.value.text
  rw [← h.name] at hresolve hassign
  rw [Assignment.applyTo, Assignment.applyTo]
  generalize s.resolve a.name = v at hresolve ⊢
  generalize t.resolve b.name = w at hresolve ⊢
  cases hresolve with
  | none => exact ⟨rfl, hst⟩
  | some hvw =>
    dsimp only
    rw [hvw.isFinal, hvw.ty, h.value.fits hst]
    split
    · exact ⟨rfl, hst⟩
    · split
      · exact hassign
      · exact ⟨rfl, hst⟩

theorem Param.Alike.declareIn {p q : Param} (h : p.Alike r q) (hst : s.Alike r t) :
    CallsAgree (Scopes.Alike r) (p.declareIn s) (q.declareIn t) :=
  hst.declare h.ofParam

theorem fitAll_of_alike {ps qs : List Param} (hparams : List.Forall₂ (Param.Alike r) ps qs) {vs ws : List Value}
    (hargs : List.Forall₂ (Value.Alike r) vs ws) (hst : s.Alike r t) : fitAll qs ws t = fitAll ps vs s := by
  induction hparams generalizing vs ws with
  | nil => cases hargs <;> rfl
  | cons hparam _ ih =>
    cases hargs with
    | nil => rfl
    | cons harg hargs => rw [fitAll, fitAll, hparam.ty, harg.fits hst, ih hargs]

theorem Call.Alike.check {c d : Call} (h : c.Alike r d) {f g : Functions} (hfg : f.Alike r g) (hst : s.Alike r t) :
    Agree Eq Eq (c.check f s) (d.check g t) := by
  have hparams := hfg.params c.name
  rw [← h.name] at hparams
  rw [Call.check, Call.check]
  generalize f.params c.name = x at hparams ⊢
  generalize g.params d.name = y at hparams ⊢
  cases hparams with
  | error failure => exact .error failure
  | ok value =>
    dsimp only
    rw [fitAll_of_alike value h.args hst]
    split
    · exact .ok rfl
    · exact .error rfl

theorem all_fits_of_alike {vs ws : List Value} (h : List.Forall₂ (Value.Alike r) vs ws) (hst : s.Alike r t)
    (target : Ty) : (ws.all (·.fits target t)) = vs.all (·.fits target s) := by
  induction h with
  | nil => rfl
  | cons hvalue _ ih => rw [List.all_cons, List.all_cons, hvalue.fits hst, ih]

theorem Condition.Alike.check {c d : Condition} (h : c.Alike r d) (hst : s.Alike r t) :
    Agree Eq Eq (c.check s) (d.check t) := by
  rw [Condition.check, Condition.check, all_fits_of_alike h.operands hst]
  split
  · exact .ok rfl
  · exact .error rfl

end Rules

end LineCheck
