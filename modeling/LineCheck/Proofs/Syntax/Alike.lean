import LineCheck.Proofs.Syntax.Spelling
import Mathlib.Data.List.Forall2
import Mathlib.Data.Option.Basic

/-!
# LineCheck.Proofs.Syntax.Alike — statements that differ in names and literals only

A `Renaming` gives new names to variables and to functions, different ones to different names.  `Statement.Alike r`
holds of a statement and what may become of it when all names change as `r` says and every literal may give way to
another one of its sort.  Of the texts of literals nothing is kept but whether a quoted character is just one character;
and a blank line and a comment are no different from each other.

Such a change leaves the braces of a statement as they are (`Alike.braces_eq`).
-/

namespace LineCheck

/-- New names for variables and for functions. -/
structure Renaming where
  variableName : String → String
  functionName : String → String
  variableName_injective : Function.Injective variableName
  functionName_injective : Function.Injective functionName

/-- Every name is kept. -/
def Renaming.id : Renaming :=
  ⟨fun name => name, fun name => name, Function.injective_id, Function.injective_id⟩

/-! ### The relation -/

/-- The literals are of one sort, and of two quoted characters both or neither have one character between the quotes. -/
inductive Literal.Alike : Literal → Literal → Prop where
  | int (a b : String) : Alike (.int a) (.int b)
  | double (a b : String) : Alike (.double a) (.double b)
  | boolean (a b : Bool) : Alike (.boolean a) (.boolean b)
  | char {a b : String} (single : a.toList.length = 3 ↔ b.toList.length = 3) : Alike (.char a) (.char b)
  | string (a b : String) : Alike (.string a) (.string b)

variable (r : Renaming)

/-- Two literals that are alike, or a name and its new name. -/
inductive Value.Alike : Value → Value → Prop where
  | literal {a b : Literal} (alike : a.Alike b) : Alike (.literal a) (.literal b)
  | name {n m : String} (name : m = r.variableName n) : Alike (.name n) (.name m)

structure Declarator.Alike (v w : Declarator) : Prop where
  name : w.name = r.variableName v.name
  init : Option.Rel (Value.Alike r) v.init w.init

structure Declaration.Alike (d e : Declaration) : Prop where
  isFinal : e.isFinal = d.isFinal
  ty : e.ty = d.ty
  declarators : List.Forall₂ (Declarator.Alike r) d.declarators e.declarators

structure Assignment.Alike (a b : Assignment) : Prop where
  name : b.name = r.variableName a.name
  value : a.value.Alike r b.value

structure Param.Alike (p q : Param) : Prop where
  name : q.name = r.variableName p.name
  ty : q.ty = p.ty
  isFinal : q.isFinal = p.isFinal

structure Header.Alike (h i : Header) : Prop where
  name : i.name = r.functionName h.name
  params : List.Forall₂ (Param.Alike r) h.params i.params

structure Call.Alike (c d : Call) : Prop where
  name : d.name = r.functionName c.name
  args : List.Forall₂ (Value.Alike r) c.args d.args

structure Condition.Alike (c d : Condition) : Prop where
  connectives : d.connectives = c.connectives
  operands : List.Forall₂ (Value.Alike r) c.operands d.operands

/-- The second statement is the first one with new names, and perhaps with other literals of the same sorts. -/
inductive Statement.Alike : Statement → Statement → Prop where
  | silent {s t : Statement} (left : s.isSilent = true) (right : t.isSilent = true) : Alike s t
  | declaration {d e : Declaration} (alike : d.Alike r e) : Alike (.declaration d) (.declaration e)
  | assignment {as bs : List Assignment} (alike : List.Forall₂ (Assignment.Alike r) as bs) :
      Alike (.assignment as) (.assignment bs)
  | function {h i : Header} (alike : h.Alike r i) : Alike (.function h) (.function i)
  | call {c d : Call} (alike : c.Alike r d) : Alike (.call c) (.call d)
  | guard (word : GuardWord) {c d : Condition} (alike : c.Alike r d) : Alike (.guard word c) (.guard word d)
  | return : Alike .return .return
  | closeBrace : Alike .closeBrace .closeBrace

/-! ### A statement is like itself -/

theorem Literal.alike_refl (l : Literal) : l.Alike l := by
  cases l with
  | int raw => exact .int raw raw
  | double raw => exact .double raw raw
  | boolean b => exact .boolean b b
  | char raw => exact .char Iff.rfl
  | string raw => exact .string raw raw

theorem Value.alike_refl (v : Value) : v.Alike .id v := by
  cases v with
  | literal l => exact .literal l.alike_refl
  | name n => exact .name rfl

theorem Value.forall₂_alike_refl (vs : List Value) : List.Forall₂ (Value.Alike .id) vs vs :=
  List.forall₂_same.mpr fun v _ => v.alike_refl

theorem Declarator.alike_refl (v : Declarator) : v.Alike .id v := by
  refine ⟨rfl, ?_⟩
  cases v.init with
  | none => exact .none
  | some value => exact .some value.alike_refl

theorem Statement.alike_refl (s : Statement) : s.Alike .id s := by
  cases s with
  | blank => exact .silent rfl rfl
  | comment => exact .silent rfl rfl
  | declaration d => exact .declaration ⟨rfl, rfl, List.forall₂_same.mpr fun v _ => v.alike_refl⟩
  | assignment as => exact .assignment (List.forall₂_same.mpr fun a _ => ⟨rfl, a.value.alike_refl⟩)
  | function h => exact .function ⟨rfl, List.forall₂_same.mpr fun p _ => ⟨rfl, rfl, rfl⟩⟩
  | call c => exact .call ⟨rfl, Value.forall₂_alike_refl c.args⟩
  | guard w c => exact .guard w ⟨rfl, Value.forall₂_alike_refl c.operands⟩
  | «return» => exact .return
  | closeBrace => exact .closeBrace

/-! ### What statements that are alike have in common -/

variable {r}

theorem Statement.braces_of_isSilent {s : Statement} (h : s.isSilent = true) : s.braces = 0 := by
  cases s with
  | blank => rfl
  | comment => rfl
  | _ => cases h

theorem Statement.Alike.braces_eq {s t : Statement} (h : s.Alike r t) : t.braces = s.braces := by
  cases h with
  | silent left right => rw [braces_of_isSilent left, braces_of_isSilent right]
  | _ => rfl

end LineCheck
