import LineCheck.Proofs.Pass.Mirror
import Mathlib.Logic.Equiv.Basic

/-!
# LineCheck.Proofs.Program.Names — what a verdict depends on

Names are compared with each other and with nothing else, and of a literal only its sort is looked at.  So two programs
that are the same line by line, but for other names and other literals of the same sorts, get the same verdict
(`verdict_of_alike`): both are accepted, or both are refused for the same rule and with the same line.
-/

namespace LineCheck

open LineReader

/-- The lines of both sources are statements, and those of the second one are those of the first one under new names,
perhaps with other literals of the same sorts. -/
def Source.Alike (r : Renaming) (source source' : Source) : Prop :=
  ∃ statements statements', List.Forall₂ NumberedLine.Reads source.lines statements ∧
    List.Forall₂ NumberedLine.Reads source'.lines statements' ∧ List.Forall₂ (Statement.Alike r) statements statements'

variable {r : Renaming}

/-- Lines are numbered in the same way whatever they say. -/
theorem mirrors_numberFrom {statements statements' : List Statement}
    (halike : List.Forall₂ (Statement.Alike r) statements statements') {number : Nat} {texts texts' : List String}
    (hreads : List.Forall₂ NumberedLine.Reads (numberFrom number texts) statements)
    (hreads' : List.Forall₂ NumberedLine.Reads (numberFrom number texts') statements') :
    Mirrors r (fun n => n) (numberFrom number texts) (numberFrom number texts') := by
  induction halike generalizing number texts texts' with
  | nil =>
    rw [List.forall₂_nil_right_iff.mp hreads, List.forall₂_nil_right_iff.mp hreads']
    exact .nil
  | cons hhere _ ih =>
    match texts, texts', hreads, hreads' with
    | text :: texts, text' :: texts', .cons hl hmore, .cons hl' hmore' =>
      exact .cons (.of_reads rfl hl hl' hhere) (ih hmore hmore')

/-- The verdict sees names only through equality, and literals only through their sort. -/
theorem verdict_of_alike {source source' : Source} (h : source.Alike r source') : source'.verdict = source.verdict := by
  obtain ⟨statements, statements', hreads, hreads', halike⟩ := h
  have hlines : Mirrors r (fun n => n) source.lines source'.lines := mirrors_numberFrom halike hreads hreads'
  rw [Source.verdict_of_mirrors hlines]
  cases source.verdict with
  | ok value => rfl
  | error rejection => exact congrArg Except.error rejection.renumber_id

/-- A function that assigns to its parameter, and a call with a value of the wrong type. -/
def misfit : Source :=
  ⟨"misfit", "int a = 1;\n// \x7b\nvoid f(String b) \x7b\n  b = \"\";\n  f(a);\n  return;\n\x7d\n"⟩

/-- The same with the two variables exchanged, another name for the function, braces in the literal, and a blank line
instead of the comment. -/
def misfitRenamed : Source :=
  ⟨"misfit", "int b = +27;\n\nvoid g( String a ) \x7b\n\ta=\"\x7d\x7d\";\n\tg(b);\nreturn ;\n \x7d\n"⟩

/-- Exchange `a` with `b` and `f` with `g`. -/
def Renaming.exchange : Renaming :=
  ⟨Equiv.swap "a" "b", Equiv.swap "f" "g", (Equiv.swap "a" "b").injective, (Equiv.swap "f" "g").injective⟩

theorem verdict_of_alike_misfit :
    misfit.Alike .exchange misfitRenamed ∧ misfit.verdict = .error (.atLine 5 .invalidParameterList) ∧
      misfitRenamed.verdict = .error (.atLine 5 .invalidParameterList) := by
  have halike : misfit.Alike .exchange misfitRenamed := by
    have hab : "b" = Renaming.exchange.variableName "a" := (Equiv.swap_apply_left "a" "b").symm
    have hba : "a" = Renaming.exchange.variableName "b" := (Equiv.swap_apply_right "a" "b").symm
    have hfg : "g" = Renaming.exchange.functionName "f" := (Equiv.swap_apply_left "f" "g").symm
    refine ⟨
      [.declaration ⟨false, .int, [⟨"a", some (.literal (.int "1"))⟩]⟩, .comment,
        .function ⟨"f", [⟨"b", .string, false⟩]⟩, .assignment [⟨"b", .literal (.string "\"\"")⟩],
        .call ⟨"f", [.name "a"]⟩, .return, .closeBrace],
      [.declaration ⟨false, .int, [⟨"b", some (.literal (.int "+27"))⟩]⟩, .blank,
        .function ⟨"g", [⟨"a", .string, false⟩]⟩, .assignment [⟨"a", .literal (.string "\"\x7d\x7d\"")⟩],
        .call ⟨"g", [.name "b"]⟩, .return, .closeBrace],
      by decide +kernel, by decide +kernel, ?_⟩
    exact .cons (.declaration ⟨rfl, rfl, .cons ⟨hab, .some (.literal (.int _ _))⟩ .nil⟩) <|
      .cons (.silent rfl rfl) <| .cons (.function ⟨hfg, .cons ⟨hba, rfl, rfl⟩ .nil⟩) <|
      .cons (.assignment (.cons ⟨hba, .literal (.string _ _)⟩ .nil)) <|
      .cons (.call ⟨hfg, .cons (.name hab) .nil⟩) <| .cons .return <| .cons .closeBrace .nil
  have hverdict : misfit.verdict = .error (.atLine 5 .invalidParameterList) := by decide +kernel
  exact ⟨halike, hverdict, (verdict_of_alike halike).trans hverdict⟩

end LineCheck
