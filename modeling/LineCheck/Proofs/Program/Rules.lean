import LineCheck.Proofs.Program.Legal

/-!
# LineCheck.Proofs.Program.Rules — the rules on tables are the rules on environments

What the passes ask of a call, of a condition, of a line that may stand anywhere and of the last line of a function is
what the definitions of legal programs say of them.
-/

namespace LineCheck

open Traced

/-! ### Calls and conditions -/

/-- The table has a function with this header. -/
def Functions.Knows (functions : Functions) (h : Header) : Prop :=
  ∃ line, functions.find? h.name = some ⟨h.name, h.params, line⟩

theorem Functions.name_of_find? {functions : Functions} {name : String} {sig : Signature}
    (h : functions.find? name = some sig) : sig.name = name := by
  simpa using List.find?_some h

theorem Functions.not_knows_empty (h : Header) : ¬({} : Functions).Knows h := by
  rintro ⟨line, hfind⟩
  cases hfind

/-- A function that is added is known from then on, besides those that were known. -/
theorem Functions.knows_of_declare {functions functions' : Functions} {h h' : Header} {number : Nat}
    (hdeclare : functions.declare ⟨h.name, h.params, number⟩ = .ok functions') :
    functions'.Knows h' ↔ h' = h ∨ functions.Knows h' := by
  have hnew := find?_eq_none_of_declare hdeclare
  dsimp only at hnew
  unfold Knows
  simp only [find?_of_declare hdeclare]
  by_cases hname : h.name = h'.name
  · rw [if_pos hname, ← hname, hnew]
    constructor
    · rintro ⟨line, hline⟩
      obtain ⟨name, params⟩ := h
      obtain ⟨name', params'⟩ := h'
      dsimp only at hname
      subst hname
      cases hline
      exact .inl rfl
    · rintro (rfl | ⟨line, hline⟩)
      · exact ⟨number, rfl⟩
      · cases hline
  · rw [if_neg hname]
    refine ⟨.inr, fun hknows => hknows.resolve_left ?_⟩
    rintro rfl
    exact hname rfl

/-- The table knows the functions with these headers and no others. -/
def Functions.KnowsJust (functions : Functions) (headers : List Header) : Prop :=
  ∀ h, functions.Knows h ↔ h ∈ headers

theorem fitAll_iff {params : List Param} {args : List Value} {scopes : Scopes} :
    fitAll params args scopes = true ↔
      List.Forall₂ (fun (a : Value) (p : Param) => a.Fits p.ty scopes.env) args params := by
  induction params generalizing args with
  | nil =>
    cases args with
    | nil => exact iff_of_true rfl .nil
    | cons a as => exact iff_of_false Bool.false_ne_true fun h => nomatch h
  | cons p ps ih =>
    cases args with
    | nil => exact iff_of_false Bool.false_ne_true fun h => nomatch h
    | cons a as => rw [fitAll, Bool.and_eq_true, List.forall₂_cons, Value.fits_iff, ih]

theorem Call.check_eq_ok_iff {functions : Functions} {headers : List Header} (hknows : functions.KnowsJust headers)
    {c : Call} {scopes : Scopes} : c.check functions scopes = .ok () ↔ c.Legal headers scopes.env := by
  have hfound : ∀ params, functions.params c.name = .ok params ↔
      ∃ h ∈ headers, h.name = c.name ∧ h.params = params := by
    intro params
    unfold Functions.params
    constructor
    · intro h
      split at h
      · next sig hsig =>
        cases h
        have hname := Functions.name_of_find? hsig
        refine ⟨⟨c.name, sig.params⟩, (hknows _).mp ⟨sig.line, ?_⟩, rfl, rfl⟩
        rw [hsig, ← hname]
      · cases h
    · rintro ⟨h, hmem, hname, rfl⟩
      obtain ⟨line, hline⟩ := (hknows h).mpr hmem
      rw [← hname, hline]
  unfold check Call.Legal
  constructor
  · intro h
    split at h
    · cases h
    · next params hparams =>
      split at h
      · next hfit =>
        obtain ⟨hd, hmem, hname, rfl⟩ := (hfound params).mp hparams
        exact ⟨hd, hmem, hname, fitAll_iff.mp hfit⟩
      · cases h
  · rintro ⟨hd, hmem, hname, hfit⟩
    rw [(hfound hd.params).mpr ⟨hd, hmem, hname, rfl⟩]
    dsimp only
    rw [if_pos (fitAll_iff.mpr hfit)]

theorem Condition.check_eq_ok_iff {c : Condition} {scopes : Scopes} :
    c.check scopes = .ok () ↔ c.Legal scopes.env := by
  have hall : c.operands.all (·.fits .boolean scopes) = true ↔ c.Legal scopes.env := by
    rw [List.all_eq_true]
    exact forall₂_congr fun v _ => Value.fits_iff
  unfold check
  split
  · next h => exact iff_of_true rfl (hall.mp h)
  · next h => exact iff_of_false (fun herr => nomatch herr) fun hlegal => h (hall.mpr hlegal)

/-! ### Lines that may stand anywhere -/

namespace PlainLine

variable {line : PlainLine} {functions : Functions} {number : Nat} {scopes scopes' : Scopes}

theorem braces_statement (line : PlainLine) : line.statement.braces = 0 := by
  cases line <;> rfl

theorem legal_of_performs (h : line.statement.Performs functions number scopes scopes') :
    line.Legal scopes.env scopes'.env := by
  cases line with
  | blank => cases h; exact .blank
  | comment => cases h; exact .comment
  | declaration d => cases h with
    | declaration run => exact .declaration (Declaration.of_perform run).1
  | assignment as => cases h with
    | assignment run => exact .assignment (of_performAll run).1

theorem exists_performs {env' : Env} (functions : Functions) (number : Nat) (h : line.Legal scopes.env env') :
    ∃ scopes', line.statement.Performs functions number scopes scopes' ∧ scopes'.env = env' := by
  cases h with
  | blank => exact ⟨scopes, .blank, rfl⟩
  | comment => exact ⟨scopes, .comment, rfl⟩
  | declaration declares =>
    obtain ⟨scopes', hrun, henv⟩ := Declaration.exists_perform number declares
    exact ⟨scopes', .declaration hrun, henv⟩
  | assignment assigns =>
    obtain ⟨scopes', hrun, henv⟩ := exists_performAll number assigns
    exact ⟨scopes', .assignment hrun, henv⟩

end PlainLine

/-! ### The last line of a function -/

theorem OpenBlock.opener_foldl_after (b : OpenBlock) (statements : List Statement) :
    (statements.foldl after b).opener = b.opener := by
  induction statements generalizing b with
  | nil => rfl
  | cons statement statements ih =>
    rw [List.foldl_cons, ih]
    unfold after
    split <;> rfl

/-- A block remembers the last line that says anything. -/
theorem OpenBlock.returns_foldl_after (b : OpenBlock) (statements : List Statement) :
    (statements.foldl after b).returns =
      ((statements.filter fun statement => !statement.isSilent).getLast?.elim b.returns (· matches .return)) := by
  induction statements using List.reverseRecOn with
  | nil => rfl
  | append_singleton statements statement ih =>
    rw [List.foldl_concat, List.filter_append]
    cases statement <;> simp [after, Statement.isSilent, ih]

theorem Body.endsInReturn_iff (body : Body) :
    body.EndsInReturn ↔ (body.statements.foldl OpenBlock.after ⟨.function, false⟩).returns = true := by
  rw [OpenBlock.returns_foldl_after, EndsInReturn]
  cases (body.statements.filter fun statement => !statement.isSilent).getLast? with
  | none => simp
  | some statement => cases statement <;> simp

end LineCheck
