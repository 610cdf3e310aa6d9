import LineCheck.Proofs.Pass.Blocks

/-!
# LineCheck.Proofs.Program.Outline — programs as trees

A program is a sequence of globals and functions, and the body of a function nests the bodies of its conditions.  The
trees here say what the lines of such a program are (`Program.statements`) and which of them a source spells
(`Program.IsReadFrom`); nothing in them is about variables or types.  A source that the second pass goes through to the
end spells a program (`exists_isReadFrom`).
-/

namespace LineCheck

open Traced

/-- A line that may stand anywhere. -/
inductive PlainLine where
  | blank
  | comment
  | declaration (declaration : Declaration)
  | assignment (assignments : List Assignment)
  deriving DecidableEq, Repr

/-- The lines of a block, and the blocks inside it. -/
inductive Body where
  | nil
  | plain (line : PlainLine) (rest : Body)
  | call (call : Call) (rest : Body)
  | return (rest : Body)
  | guard (word : GuardWord) (condition : Condition) (inner rest : Body)
  deriving DecidableEq, Repr

/-- A function: its header and its lines. -/
structure Function where
  header : Header
  body : Body
  deriving DecidableEq, Repr

/-- What stands outside functions: single lines, and functions. -/
inductive Item where
  | plain (line : PlainLine)
  | function (function : Function)
  deriving DecidableEq, Repr

/-- A program. -/
structure Program where
  items : List Item
  deriving DecidableEq, Repr

/-- The statement that the line makes. -/
def PlainLine.statement : PlainLine → Statement
  | blank => .blank
  | comment => .comment
  | declaration d => .declaration d
  | assignment as => .assignment as

/-- The statements of a block, without the closing brace at its end. -/
def Body.statements : Body → List Statement
  | nil => []
  | plain line rest => line.statement :: rest.statements
  | call c rest => .call c :: rest.statements
  | .return rest => .return :: rest.statements
  | guard w c inner rest => .guard w c :: (inner.statements ++ .closeBrace :: rest.statements)

/-- The statements of a function. -/
def Function.statements (f : Function) : List Statement :=
  .function f.header :: (f.body.statements ++ [.closeBrace])

def Item.statements : Item → List Statement
  | plain line => [line.statement]
  | function f => f.statements

def Item.function? : Item → Option Function
  | plain _ => none
  | function f => some f

namespace Program

/-- The statements of a program in order. -/
def statements (p : Program) : List Statement :=
  p.items.flatMap Item.statements

/-- The functions in order. -/
def functions (p : Program) : List Function :=
  p.items.filterMap Item.function?

/-- The lines of the source are the statements of the program, one by one. -/
def IsReadFrom (p : Program) (source : Source) : Prop :=
  List.Forall₂ NumberedLine.Reads source.lines p.statements

theorem isReadFrom_iff {p : Program} {source : Source} :
    p.IsReadFrom source ↔ source.lines.map NumberedLine.statement? = p.statements.map some := by
  have hreads : NumberedLine.Reads = fun l statement => l.statement? = some statement := by
    funext l statement
    exact propext NumberedLine.reads_iff
  rw [IsReadFrom, hreads, ← List.forall₂_eq_eq_eq, List.forall₂_map_left_iff, List.forall₂_map_right_iff]

instance (p : Program) (source : Source) : Decidable (p.IsReadFrom source) :=
  decidable_of_iff _ isReadFrom_iff.symm

end Program

/-- Lines that are read as two sequences of statements are cut between them. -/
theorem exists_append_of_reads {α β : Type} {R : α → β → Prop} {ls : List α} {as bs : List β}
    (h : List.Forall₂ R ls (as ++ bs)) :
    ∃ ls₁ ls₂, ls = ls₁ ++ ls₂ ∧ List.Forall₂ R ls₁ as ∧ List.Forall₂ R ls₂ bs :=
  ⟨_, _, (List.take_append_drop as.length ls).symm, List.forall₂_take_append ls as bs h,
    List.forall₂_drop_append ls as bs h⟩

theorem exists_append_of_forall₂ {α β : Type} {R : α → β → Prop} {as bs : List α} {cs : List β}
    (h : List.Forall₂ R (as ++ bs) cs) :
    ∃ cs₁ cs₂, cs = cs₁ ++ cs₂ ∧ List.Forall₂ R as cs₁ ∧ List.Forall₂ R bs cs₂ := by
  obtain ⟨cs₁, cs₂, heq, has, hbs⟩ := exists_append_of_reads (R := flip R) h.flip
  exact ⟨cs₁, cs₂, heq, has.flip, hbs.flip⟩

/-! ### Lines that go through the second pass spell a program -/

namespace Checker

variable {functions : Functions} {s s' : Checker} {ls : List NumberedLine}

/-- From inside a block to outside of it, the second pass reads the lines of a body and then a closing brace. -/
theorem exists_body {b : OpenBlock} {outer : List OpenBlock} (hlead : Leads (Checker.step functions) s ls s')
    (hinside : s.blocks = b :: outer) (hleft : s'.blocks.length ≤ outer.length) :
    ∃ body block rest s₁, ls = block ++ rest ∧
      List.Forall₂ NumberedLine.Reads block (Body.statements body ++ [.closeBrace]) ∧
      Leads (Checker.step functions) s block s₁ ∧ s₁.blocks = outer := by
  induction hn : ls.length using Nat.strong_induction_on generalizing ls s b outer with
  | _ n ih =>
    subst hn
    cases ls with
    | nil =>
      rw [leads_nil.mp hlead] at hinside
      rw [hinside, List.length_cons] at hleft
      omega
    | cons l ls =>
      obtain ⟨s₁, hl, hrest⟩ := leads_cons.mp hlead
      have hshort : ls.length < (l :: ls).length := Nat.lt_succ_self _
      cases (result_step_inside_iff hinside).mp hl with
      | @line statement scopes hreads run =>
        obtain ⟨body, block, rest, s₂, rfl, hblock, hs₂, hblocks⟩ := ih _ hshort hrest rfl hleft rfl
        obtain ⟨body', hbody'⟩ : ∃ body' : Body, body'.statements = statement :: body.statements := by
          cases run with
          | blank => exact ⟨.plain .blank body, rfl⟩
          | comment => exact ⟨.plain .comment body, rfl⟩
          | declaration _ => exact ⟨.plain (.declaration _) body, rfl⟩
          | assignment _ => exact ⟨.plain (.assignment _) body, rfl⟩
          | call _ => exact ⟨.call _ body, rfl⟩
          | «return» => exact ⟨.return body, rfl⟩
        refine ⟨body', l :: block, rest, s₂, rfl, ?_, leads_cons.mpr ⟨_, hl, hs₂⟩, hblocks⟩
        rw [hbody']
        exact .cons hreads hblock
      | @guard w c hreads _ =>
        -- the lines behind the condition, and the lines behind their closing brace
        obtain ⟨inner, block, more, s₂, rfl, hblock, hs₂, hblocks₂⟩ :=
          ih _ hshort hrest rfl (hleft.trans (Nat.le_succ _)) rfl
        have hshort' : more.length < (l :: (block ++ more)).length := by
          simp only [List.length_cons, List.length_append]
          omega
        obtain ⟨body, block', rest, s₃, rfl, hblock', hs₃, hblocks₃⟩ :=
          ih _ hshort' (hrest.of_append hs₂) hblocks₂ hleft rfl
        refine ⟨.guard w c inner body, l :: (block ++ block'), rest, s₃, by simp, ?_, ?_, hblocks₃⟩
        · have hstatements : (Body.guard w c inner body).statements ++ [.closeBrace] =
              .guard w c :: ((inner.statements ++ [.closeBrace]) ++ (body.statements ++ [.closeBrace])) := by
            simp [Body.statements]
          rw [hstatements]
          exact .cons hreads (List.rel_append hblock hblock')
        · exact leads_cons.mpr ⟨_, hl, leads_append.mpr ⟨s₂, hs₂, hs₃⟩⟩
      | close hreads _ _ =>
        exact ⟨.nil, [l], ls, _, rfl, .cons hreads .nil, leads_singleton.mpr hl, rfl⟩

/-- From outside functions to outside functions, the second pass reads the lines of a program. -/
theorem exists_items (h : s.Lockstep) (hlead : Leads (Checker.step functions) s ls s') (houtside : s.blocks = [])
    (hend : s'.blocks = []) :
    ∃ items : List Item, List.Forall₂ NumberedLine.Reads ls (items.flatMap Item.statements) := by
  induction hn : ls.length using Nat.strong_induction_on generalizing ls s with
  | _ n ih =>
    subst hn
    cases ls with
    | nil => exact ⟨[], .nil⟩
    | cons l ls =>
      obtain ⟨s₁, hl, hrest⟩ := leads_cons.mp hlead
      have hshort : ls.length < (l :: ls).length := Nat.lt_succ_self _
      have hlock := h.step hl
      have hplain : ∀ line : PlainLine, l.Reads line.statement → s₁.blocks = [] →
          ∃ items : List Item, List.Forall₂ NumberedLine.Reads (l :: ls) (items.flatMap Item.statements) := by
        intro line hreads hout
        obtain ⟨items, hitems⟩ := ih _ hshort hlock hrest hout rfl
        exact ⟨.plain line :: items, .cons hreads hitems⟩
      cases (result_step_outside_iff houtside).mp hl with
      | @idle statement hreads known =>
        rcases known with hsilent | ⟨d, rfl⟩
        · obtain rfl | rfl := Statement.eq_of_isSilent hsilent
          · exact hplain .blank hreads houtside
          · exact hplain .comment hreads houtside
        · exact hplain (.declaration d) hreads houtside
      | @replay as _ hreads _ => exact hplain (.assignment as) hreads houtside
      | @enter hd _ hreads _ =>
        obtain ⟨body, block, rest, s₂, rfl, hblock, hs₂, hblocks₂⟩ :=
          exists_body hrest rfl (Nat.le_of_eq (by rw [hend]))
        have hshort' : rest.length < (l :: (block ++ rest)).length := by
          simp only [List.length_cons, List.length_append]
          omega
        obtain ⟨items, hitems⟩ := ih _ hshort' (hlock.leads hs₂) (hrest.of_append hs₂) hblocks₂ rfl
        exact ⟨.function ⟨hd, body⟩ :: items, .cons hreads (List.rel_append hblock hitems)⟩
      | stray _ opened =>
        have hdepth := h.depth
        rw [houtside, opened] at hdepth
        cases hdepth

end Checker

end LineCheck
