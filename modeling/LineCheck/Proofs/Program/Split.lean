import LineCheck.Proofs.Pass.Split
import LineCheck.Proofs.Program.Insertion

/-!
# LineCheck.Proofs.Program.Split — one line or several

A declaration of several variables, or a line with several assignments, may be written on several lines, one for each of
them.  The verdict stays; only numbers of lines change: behind the line they move on, and a rule that the line breaks is
broken by one of the new lines (`verdict_of_split`).
-/

namespace LineCheck

open LineReader Text

/-! ### Numbers of lines -/

/-- The number of a line once the line behind the first `p` lines has given way to `k` lines.  For that line itself it
is `m`. -/
def moveLine (p k m n : Nat) : Nat :=
  if n ≤ p then n else if n = p + 1 then m else n + (k - 1)

/-- The same rule is broken, by the same line or by one of the `k` lines in its place. -/
def Rejection.Moved (p k : Nat) (a b : Rejection) : Prop :=
  ∃ m, p < m ∧ m ≤ p + k ∧ b = a.renumber (moveLine p k m)

theorem moveLine_here (p k m : Nat) : moveLine p k m (p + 1) = m := by
  rw [moveLine, if_neg (Nat.not_succ_le_self p), if_pos rfl]

section Numbers

variable {p k m : Nat}

/-- The lines before the one that is split keep their numbers. -/
theorem mirrors_before (before : List String) :
    Mirrors .id (moveLine before.length k m) (numberFrom 0 before) (numberFrom 0 before) := by
  refine .numberFrom_self fun i hi => ?_
  rw [moveLine, if_pos (by omega)]

/-- The lines behind it move on. -/
theorem mirrors_after (hk : 0 < k) (after : List String) :
    Mirrors .id (moveLine p k m) (numberFrom (p + 1) after) (numberFrom (p + k) after) := by
  refine .numberFrom_self fun i _ => ?_
  rw [moveLine, if_neg (by omega), if_neg (by omega)]
  omega

/-- Lines that have the number of the one that is split may be numbered on from it. -/
theorem runAlike_numberFrom {texts : List String} {number : Nat} (hfirst : p ≤ number)
    (hlast : number + texts.length ≤ p + k) :
    RunAlike .id (Rejection.Moved p k) (texts.map (NumberedLine.mk (p + 1))) (numberFrom number texts) := by
  induction texts generalizing number with
  | nil => exact .nil
  | cons text texts ih =>
    rw [List.length_cons] at hlast
    have hnumber : number + 1 = moveLine p k (number + 1) (p + 1) := (moveLine_here p k (number + 1)).symm
    have hline : Mirrors .id (moveLine p k (number + 1)) [⟨p + 1, text⟩] [⟨number + 1, text⟩] :=
      .cons (NumberedLine.mirrors_self hnumber text) .nil
    have hhere : RunAlike .id (Rejection.Moved p k) [⟨p + 1, text⟩] [⟨number + 1, text⟩] :=
      hline.runAlike.mono fun a b hab => ⟨number + 1, by omega, by omega, hab⟩
    exact hhere.append (ih (by omega) (by omega))

end Numbers

/-! ### The line and its parts -/

/-- What is read from a line that is neither blank nor a comment is well formed. -/
theorem TextReads.wellFormed {text : String} {a : Statement} (h : TextReads text a) (hquiet : a.isSilent = false) :
    a.WellFormed := by
  obtain ⟨line, hline, rfl⟩ := h
  by_cases hblank : allBlank text = true
  · rw [Line.ofText, if_pos hblank] at hline
    cases hline
    cases hquiet
  · by_cases hcomment : isComment text = true
    · rw [Line.ofText, if_neg hblank, if_pos hcomment] at hline
      cases hline
      cases hquiet
    · exact ((Line.ofText_eq_ok_iff hblank hcomment).mp hline).1

/-- A line that is read has a part at least. -/
theorem Statement.SplitsInto.ne_nil {whole : Statement} {parts : List Statement} (h : whole.SplitsInto parts)
    {line : String} (hline : TextReads line whole) : parts ≠ [] := by
  cases h with
  | declaration d => exact fun hnil => (hline.wellFormed rfl).1 (List.map_eq_nil_iff.mp hnil)
  | assignment as => exact fun hnil => (hline.wellFormed rfl).1 (List.map_eq_nil_iff.mp hnil)

theorem runAlike_of_split {line : String} {texts : List String} {whole : Statement} {parts : List Statement} (p : Nat)
    (hsplit : whole.SplitsInto parts) (hline : TextReads line whole) (htexts : List.Forall₂ TextReads texts parts) :
    RunAlike .id (Rejection.Moved p texts.length) [⟨p + 1, line⟩] (numberFrom p texts) := by
  have hreads : NumberedLine.Reads ⟨p + 1, line⟩ whole := NumberedLine.reads_iff_textReads.mpr hline
  have hparts : ReadAt (p + 1) parts (texts.map (NumberedLine.mk (p + 1))) := by
    rw [ReadAt, List.forall₂_map_right_iff]
    have hflip : List.Forall₂ (flip TextReads) parts texts := htexts.flip
    exact hflip.imp fun part text hpart => ⟨rfl, NumberedLine.reads_iff_textReads.mpr hpart⟩
  have hnumbers := runAlike_numberFrom (k := texts.length) (Nat.le_refl p) (Nat.le_refl (p + texts.length))
  constructor
  · intro s t start
    have hopened : ∀ k, s.skip = some k → 0 < k.balance := by
      intro k hk
      obtain ⟨hs, -⟩ | ⟨k', l', hs, -, halike⟩ := none_or_some_of_rel start.skip
      · exact nomatch hk.symm.trans hs
      · obtain rfl := Option.some.inj (hk.symm.trans hs)
        exact halike.opened
    rw [Traced.foldlM_singleton,
      Collector.result_step_of_split hsplit (hsplit.ne_nil hline) hreads hparts hopened]
    exact hnumbers.collect start
  · intro functions functions' s t known start
    rw [Traced.foldlM_singleton, Checker.result_step_of_split hsplit (hsplit.ne_nil hline) hreads hparts]
    exact hnumbers.check known start

/-- A line with several declarators or assignments means what they mean on lines of their own, in the same order.  The
source with these lines in its place is accepted if the source is.  Otherwise it is refused for the same rule: without a
line if there was none, and else by the same line, or by one of the new lines if it was the one that is split. -/
theorem verdict_of_split {source source' : Source} {before after texts : List String} {line : String} {whole : Statement}
    {parts : List Statement} (hlines : source.lineTexts = before ++ line :: after)
    (hlines' : source'.lineTexts = before ++ (texts ++ after)) (hline : TextReads line whole)
    (hsplit : whole.SplitsInto parts) (htexts : List.Forall₂ TextReads texts parts) :
    ∃ m, before.length < m ∧ m ≤ before.length + texts.length ∧
      source'.verdict =
        source.verdict.mapError (Rejection.renumber (moveLine before.length texts.length m)) := by
  obtain ⟨p, hp⟩ : ∃ p, p = before.length := ⟨_, rfl⟩
  have hpos : 0 < texts.length := by
    rw [htexts.length_eq]
    exact List.length_pos_iff.mpr (hsplit.ne_nil hline)
  have hmoved : ∀ a b : Rejection, b = a.renumber (moveLine p texts.length (p + 1)) → a.Moved p texts.length b :=
    fun a b hab => ⟨p + 1, by omega, by omega, hab⟩
  have hrun : RunAlike .id (Rejection.Moved p texts.length) source.lines source'.lines := by
    have hsource : source.lines = numberFrom 0 before ++ ([⟨p + 1, line⟩] ++ numberFrom (p + 1) after) := by
      rw [Source.lines, Source.reader, toList, hlines, numberFrom_append, hp, Nat.zero_add]
      rfl
    have hsource' : source'.lines = numberFrom 0 before ++ (numberFrom p texts ++ numberFrom (p + texts.length) after) := by
      rw [Source.lines, Source.reader, toList, hlines', numberFrom_append, numberFrom_append, hp, Nat.zero_add]
    rw [hsource, hsource']
    refine .append ?_ ((runAlike_of_split p hsplit hline htexts).append ((mirrors_after hpos after).runAlike.mono hmoved))
    rw [hp] at hmoved ⊢
    exact (mirrors_before before).runAlike.mono hmoved
  have hagree := Source.verdict_of_runAlike ⟨p + 1, by omega, by omega, rfl⟩ hrun
  rw [← hp]
  generalize source.verdict = x at hagree ⊢
  generalize source'.verdict = y at hagree ⊢
  cases hagree with
  | ok value =>
    subst value
    exact ⟨p + 1, by omega, by omega, rfl⟩
  | error failure =>
    obtain ⟨m, hlow, hhigh, rfl⟩ := failure
    exact ⟨m, hlow, hhigh, rfl⟩

/-- A function with a line whose last variable has the name of its first one. -/
def joined : Source :=
  ⟨"joined", "void f() \x7b\n  int a = 1, b = a, a = b;\n  return;\n\x7d\n"⟩

/-- The same with a line for each variable. -/
def parted : Source :=
  ⟨"parted", "void f() \x7b\n  int a = 1;\n  int b = a;\n  int a = b;\n  return;\n\x7d\n"⟩

theorem verdict_of_split_inside :
    joined.verdict = .error (.atLine 2 .variableExists) ∧
      ∃ m, 1 < m ∧ m ≤ 4 ∧ parted.verdict = .error (.atLine m .variableExists) := by
  have hlines : joined.lineTexts =
      ["void f() \x7b"] ++ "  int a = 1, b = a, a = b;" :: ["  return;", "\x7d"] := by
    decide +kernel
  have hlines' : parted.lineTexts =
      ["void f() \x7b"] ++ (["  int a = 1;", "  int b = a;", "  int a = b;"] ++ ["  return;", "\x7d"]) := by
    decide +kernel
  have hline : TextReads "  int a = 1, b = a, a = b;" (.declaration ⟨false, .int,
      [⟨"a", some (.literal (.int "1"))⟩, ⟨"b", some (.name "a")⟩, ⟨"a", some (.name "b")⟩]⟩) := by
    decide +kernel
  have htexts : List.Forall₂ TextReads ["  int a = 1;", "  int b = a;", "  int a = b;"]
      [.declaration ⟨false, .int, [⟨"a", some (.literal (.int "1"))⟩]⟩,
        .declaration ⟨false, .int, [⟨"b", some (.name "a")⟩]⟩,
        .declaration ⟨false, .int, [⟨"a", some (.name "b")⟩]⟩] := by
    decide +kernel
  have hrefused : joined.verdict = .error (.atLine 2 .variableExists) := by decide +kernel
  obtain ⟨m, hlow, hhigh, hverdict⟩ := verdict_of_split hlines hlines' hline (.declaration _) htexts
  refine ⟨hrefused, m, hlow, hhigh, ?_⟩
  rw [hverdict, hrefused]
  exact congrArg (fun n => Except.error (Rejection.atLine n .variableExists)) (moveLine_here 1 3 m)

end LineCheck
