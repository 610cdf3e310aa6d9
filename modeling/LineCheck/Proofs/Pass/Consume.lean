import LineCheck.Proofs.Pass.Blocks

/-!
# LineCheck.Proofs.Pass.Consume — the lines of one block

Inside a block the second pass reads on to the brace that closes it (`Checker.consume`).  It goes on with the steps of
the pass for as long as the block is open, counts the closing brace and tells whether the block ended in a `return`.
The whole pass is nothing but such parts (`foldlM_step_eq_consume`), and each of them reads the lines of one block
(`consumes_one_block`).

`Checker.Partway` is what holds between two lines of the block: how many more blocks are open than at its start, which
is what the braces of the lines so far say, and what the block remembers of its last line.
-/

namespace LineCheck

open Traced

/-! ### What the lines of a block say -/

/-- A condition, which opens a block inside a function. -/
def Statement.isGuard : Statement → Bool
  | .guard _ _ => true
  | _ => false

/-- A brace, which closes a block. -/
def Statement.isClosing : Statement → Bool
  | .closeBrace => true
  | _ => false

namespace NumberedLine

variable {l : NumberedLine} {ls : List NumberedLine} {statement : Statement}

/-- How many of the lines are closing braces. -/
def closings (ls : List NumberedLine) : Nat :=
  ls.countP fun l => l.statement?.any Statement.isClosing

/-- How many of the lines are the headers of conditions. -/
def guards (ls : List NumberedLine) : Nat :=
  ls.countP fun l => l.statement?.any Statement.isGuard

/-- The statement of the last line that says anything. -/
def lastSaid (ls : List NumberedLine) : Option Statement :=
  ((ls.filterMap statement?).filter fun statement => !statement.isSilent).getLast?

theorem closings_concat (h : l.Reads statement) :
    closings (ls ++ [l]) = closings ls + if statement.isClosing then 1 else 0 := by
  simp [closings, List.countP_append, List.countP_singleton, reads_iff.mp h]

theorem guards_concat (h : l.Reads statement) :
    guards (ls ++ [l]) = guards ls + if statement.isGuard then 1 else 0 := by
  simp [guards, List.countP_append, List.countP_singleton, reads_iff.mp h]

theorem lastSaid_concat (h : l.Reads statement) :
    lastSaid (ls ++ [l]) = if statement.isSilent then lastSaid ls else some statement := by
  unfold lastSaid
  have hlast : [l].filterMap statement? = [statement] := by simp [reads_iff.mp h]
  rw [List.filterMap_append, hlast, List.filter_append]
  cases hsilent : statement.isSilent <;> simp [hsilent]

end NumberedLine

open NumberedLine

theorem OpenBlock.opener_after (b : OpenBlock) (statement : Statement) : (b.after statement).opener = b.opener := by
  unfold after
  split <;> rfl

theorem OpenBlock.returns_after_iff {b : OpenBlock} {statement : Statement} {said : Option Statement}
    (h : b.returns = true ↔ said = some .return) :
    (b.after statement).returns = true ↔ (if statement.isSilent then said else some statement) = some .return := by
  unfold after
  split
  · exact h
  · cases statement <;> simp

/-- A line that opens and closes no block is no header and no brace. -/
theorem Statement.Performs.isGuard_eq {functions : Functions} {number : Nat} {scopes scopes' : Scopes}
    {statement : Statement} (h : statement.Performs functions number scopes scopes') :
    statement.isGuard = false ∧ statement.isClosing = false ∧ ∀ h, statement ≠ .function h := by
  cases h <;> exact ⟨rfl, rfl, by simp⟩

/-- A computation goes on alike where it goes on alike from each result of its first step. -/
theorem Traced.bind_congr_of_ok {ε α β : Type} {x : Traced ε α} {f g : α → Traced ε β}
    (h : ∀ a, x.result = .ok a → f a = g a) : x >>= f = x >>= g := by
  obtain ⟨log, result⟩ := x
  cases result with
  | error e => rfl
  | ok a =>
    change Traced.bind _ f = Traced.bind _ g
    rw [Traced.bind, Traced.bind]
    dsimp only
    rw [h a rfl]

namespace Checker

variable {functions : Functions} {start s s' : Checker} {l : NumberedLine} {ls done : List NumberedLine}
  {b : OpenBlock} {outer : List OpenBlock}

theorem returns_of_blocks (h : s.blocks = b :: outer) : s.returns = b.returns := by
  simp [returns, h]

/-! ### Between two lines of a block -/

/-- The lines `done` have led from `start`, where a block was opened inside the blocks `outer`, to `s`.  It is open
still, as `block`, and so are the blocks `inner` inside it. -/
structure Partway (outer : List OpenBlock) (start : Checker) (done : List NumberedLine) (inner : List OpenBlock)
    (block : OpenBlock) (s : Checker) : Prop where
  blocks : s.blocks = inner ++ block :: outer
  inner_guard : ∀ b ∈ inner, b.opener = .guard
  reads : ∀ l ∈ done, ∃ statement, l.Reads statement ∧ ∀ h, statement ≠ .function h
  balance : guards done = closings done + inner.length
  balance_front : ∀ front, front <+: done → closings front ≤ guards front
  depth : s.depth = start.depth + inner.length
  stack : s.scopes.stack.length = start.scopes.stack.length + inner.length
  returns_iff : inner = [] → (block.returns = true ↔ lastSaid done = some .return)
  returns_inner : inner ≠ [] → block.returns = false

theorem partway_start {opener : Opener} (h : s.blocks = ⟨opener, false⟩ :: outer) :
    Partway outer s [] [] ⟨opener, false⟩ s where
  blocks := h
  inner_guard := by simp
  reads := by simp
  balance := rfl
  balance_front := by
    intro front hfront
    rw [List.prefix_nil.mp hfront]
    exact Nat.le_refl _
  depth := rfl
  stack := rfl
  returns_iff := fun _ => by simp [lastSaid]
  returns_inner := fun h => absurd rfl h

section Step

variable {start : Checker} {inner inner' : List OpenBlock} {block block' : OpenBlock} {statement : Statement}

/-- What one more line has to do to the blocks, the counter and the tables for the lines to stay inside the block. -/
theorem Partway.concat (h : Partway outer start done inner block s) (hl : l.Reads statement)
    (hheader : ∀ h, statement ≠ .function h)
    (hblocks : s'.blocks = inner' ++ block' :: outer) (hguard : ∀ b ∈ inner', b.opener = .guard)
    (hlength : inner'.length + (if statement.isClosing then 1 else 0) =
      inner.length + if statement.isGuard then 1 else 0)
    (hdepth : s'.depth + inner.length = s.depth + inner'.length)
    (hstack : s'.scopes.stack.length + inner.length = s.scopes.stack.length + inner'.length)
    (hreturns : inner' = [] → (block'.returns = true ↔ lastSaid (done ++ [l]) = some .return))
    (hinner : inner' ≠ [] → block'.returns = false) :
    Partway outer start (done ++ [l]) inner' block' s' := by
  have hbalance : guards (done ++ [l]) = closings (done ++ [l]) + inner'.length := by
    have hbefore := h.balance
    rw [guards_concat hl, closings_concat hl]
    omega
  have hdepth₀ := h.depth
  have hstack₀ := h.stack
  refine ⟨hblocks, hguard, ?_, hbalance, ?_, by omega, by omega, hreturns, hinner⟩
  · intro m hm
    rcases List.mem_append.mp hm with hm | hm
    · exact h.reads m hm
    · exact List.mem_singleton.mp hm ▸ ⟨statement, hl, hheader⟩
  · intro front hfront
    rcases List.prefix_concat_iff.mp hfront with rfl | hfront
    · omega
    · exact h.balance_front front hfront

/-- A line of the block itself, other than its closing brace. -/
theorem Partway.step_of_nil (h : Partway outer start done [] block s) (hs : (s.step functions l).result = .ok s')
    (hopen : ¬l.Reads .closeBrace) :
    ∃ inner' block', block'.opener = block.opener ∧ Partway outer start (done ++ [l]) inner' block' s' := by
  cases (result_step_inside_iff h.blocks).mp hs with
  | @line statement _ hl run =>
    obtain ⟨hguard, hclosing, hheader⟩ := run.isGuard_eq
    have hreturns : (block.after statement).returns = true ↔ lastSaid (done ++ [l]) = some .return := by
      rw [lastSaid_concat hl]
      exact OpenBlock.returns_after_iff (h.returns_iff rfl)
    refine ⟨[], block.after statement, block.opener_after statement, ?_⟩
    exact h.concat hl hheader rfl (by simp) (by simp [hguard, hclosing]) rfl run.keeps.height (fun _ => hreturns)
      (absurd rfl)
  | @guard w c hl _ =>
    refine ⟨[⟨.guard, false⟩], block.after (.guard w c), block.opener_after _, ?_⟩
    exact h.concat hl (by simp) rfl (by simp) rfl rfl rfl (by simp) fun _ => rfl
  | close hl _ _ => exact absurd hl hopen

/-- A line of a condition inside the block.  The block remembers a condition there, which is no `return`, even where
the condition itself ended in one. -/
theorem Partway.step_of_cons {i : OpenBlock} (h : Partway outer start done (i :: inner) block s)
    (hs : (s.step functions l).result = .ok s') : ∃ inner', Partway outer start (done ++ [l]) inner' block s' := by
  have hblock : block.returns = false := h.returns_inner (by simp)
  obtain ⟨hopener, hguards⟩ := List.forall_mem_cons.mp h.inner_guard
  have hafter : ∀ statement, ∀ b ∈ i.after statement :: inner, b.opener = .guard := by
    intro statement
    exact List.forall_mem_cons.mpr ⟨(i.opener_after statement).trans hopener, hguards⟩
  cases (result_step_inside_iff h.blocks).mp hs with
  | @line statement _ hl run =>
    obtain ⟨hguard, hclosing, hheader⟩ := run.isGuard_eq
    refine ⟨i.after statement :: inner, ?_⟩
    refine h.concat hl hheader rfl (hafter statement) (by simp [hguard, hclosing]) rfl ?_ (by simp) fun _ => hblock
    exact congrArg (· + (inner.length + 1)) run.keeps.height
  | @guard w c hl _ =>
    refine ⟨⟨.guard, false⟩ :: i.after (.guard w c) :: inner, ?_⟩
    refine h.concat hl (by simp) rfl (List.forall_mem_cons.mpr ⟨rfl, hafter _⟩) rfl ?_ ?_ (by simp) fun _ => hblock
    · simp only [List.length_cons]
      omega
    · simp only [Scopes.openBlock, List.length_cons]
      omega
  | @close depth hl hdepth _ =>
    have hstack := h.stack
    rw [List.length_cons] at hstack
    refine ⟨inner, h.concat hl (by simp) rfl hguards rfl ?_ ?_ ?_ fun _ => hblock⟩
    · simp only [List.length_cons, hdepth]
      omega
    · simp only [OpenBlock.leave, hopener, Scopes.closeInnermost, List.length_tail, List.length_cons]
      omega
    · intro _
      simp [hblock, lastSaid_concat hl, Statement.isSilent]

/-- A line of the block leads on inside it, unless it is the brace that closes the block. -/
theorem Partway.step (h : Partway outer start done inner block s) (hs : (s.step functions l).result = .ok s')
    (hopen : inner = [] → ¬l.Reads .closeBrace) :
    ∃ inner' block', block'.opener = block.opener ∧ Partway outer start (done ++ [l]) inner' block' s' := by
  cases inner with
  | nil => exact h.step_of_nil hs (hopen rfl)
  | cons i inner =>
    obtain ⟨inner', h'⟩ := h.step_of_cons hs
    exact ⟨inner', block, rfl, h'⟩

/-- A line of the block closes it where no other block is open inside. -/
theorem Partway.length_blocks_iff (h : Partway outer start done inner block s) :
    s.blocks.length = outer.length + 1 ↔ inner = [] := by
  rw [h.blocks, List.length_append, List.length_cons, ← List.length_eq_zero_iff]
  omega

end Step

/-! ### The whole block -/

section Consume

variable {start : Checker} {inner : List OpenBlock} {block : OpenBlock} {height : Nat} {rest : List NumberedLine}
  {ended : Bool}

theorem consume_closeBrace (hheight : s.blocks.length = height + 1) (hl : l.Reads .closeBrace) :
    s.consume functions height (l :: ls) = Traced.readLine l.number l.text { s with line := l.number } >>= fun _ =>
      { s with line := l.number }.closeBrace >>= fun s' => pure (s.returns, s', ls) := by
  rw [consume]
  refine bind_congr_of_ok fun line hline => ?_
  have hstatement := NumberedLine.Reads.unique ⟨line, result_readLine_eq_ok_iff.mp hline, rfl⟩ hl
  exact if_pos ⟨hheight, hstatement⟩

theorem consume_of_open (hopen : ¬(s.blocks.length = height + 1 ∧ l.Reads .closeBrace)) :
    s.consume functions height (l :: ls) = s.step functions l >>= fun s => s.consume functions height ls := by
  rw [consume, Checker.step]
  simp only [bind_assoc]
  refine bind_congr_of_ok fun line hline => ?_
  have hreads : l.Reads line.statement := ⟨line, result_readLine_eq_ok_iff.mp hline, rfl⟩
  refine if_neg ?_
  rintro ⟨hheight, hclose⟩
  exact hopen ⟨hheight, hclose ▸ hreads⟩

theorem result_consume_closeBrace_iff (hheight : s.blocks.length = height + 1) (hl : l.Reads .closeBrace) :
    (s.consume functions height (l :: ls)).result = .ok (ended, s', rest) ↔
      ∃ depth, s.depth = depth + 1 ∧ ended = s.returns ∧ s' = { s with line := l.number, depth } ∧ rest = ls := by
  rw [consume_closeBrace hheight hl, result_bind_eq_ok_iff]
  obtain ⟨line, hline, -⟩ := hl
  constructor
  · rintro ⟨_, -, h⟩
    obtain ⟨s₁, hclose, hpure⟩ := result_bind_eq_ok_iff.mp h
    obtain ⟨depth, hdepth, rfl⟩ := result_closeBrace_eq_ok_iff.mp hclose
    cases hpure
    exact ⟨depth, hdepth, rfl, rfl, rfl⟩
  · rintro ⟨depth, hdepth, rfl, rfl, rfl⟩
    refine ⟨line, result_readLine_eq_ok_iff.mpr hline, result_bind_eq_ok_iff.mpr ⟨_, ?_, rfl⟩⟩
    exact result_closeBrace_eq_ok_iff.mpr ⟨depth, hdepth, rfl⟩

/-- From any line of a block on, what is consumed leads to its closing brace. -/
theorem Partway.of_consume (h : Partway outer start done inner block s)
    (hs : (s.consume functions outer.length ls).result = .ok (ended, s', rest)) :
    ∃ body last block' s₁, ls = body ++ last :: rest ∧ Partway outer start (done ++ body) [] block' s₁ ∧
      last.Reads .closeBrace ∧ block'.returns = ended ∧ s₁.depth = s'.depth + 1 ∧ s₁.scopes = s'.scopes := by
  induction ls generalizing done inner block s with
  | nil => cases hs
  | cons l ls ih =>
    by_cases hclose : s.blocks.length = outer.length + 1 ∧ l.Reads .closeBrace
    · obtain ⟨hheight, hl⟩ := hclose
      obtain ⟨depth, hdepth, rfl, rfl, rfl⟩ := (result_consume_closeBrace_iff hheight hl).mp hs
      obtain rfl := h.length_blocks_iff.mp hheight
      refine ⟨[], l, block, s, rfl, (List.append_nil done).symm ▸ h, hl, ?_, hdepth, rfl⟩
      exact (returns_of_blocks h.blocks).symm
    · rw [consume_of_open hclose] at hs
      obtain ⟨s₁, hstep, hs⟩ := result_bind_eq_ok_iff.mp hs
      have hopen : inner = [] → ¬l.Reads .closeBrace := fun hinner hl => hclose ⟨h.length_blocks_iff.mpr hinner, hl⟩
      obtain ⟨inner', block', -, h₁⟩ := h.step hstep hopen
      obtain ⟨body, last, block'', s₂, rfl, h₂, hlast⟩ := ih h₁ hs
      refine ⟨l :: body, last, block'', s₂, rfl, ?_, hlast⟩
      rwa [List.append_assoc] at h₂

/-- From a block that is open the pass goes on to its end, leaves it and goes on. -/
theorem Partway.foldlM_step_eq_consume (h : Partway outer start done inner block s) (source : String) :
    (ls.foldlM (Checker.step functions) s >>= fun s => s.finish source) =
      s.consume functions outer.length ls >>= fun (ended, s', rest) =>
        s'.leaveBlock ⟨block.opener, ended⟩ outer >>= fun s' =>
          rest.foldlM (Checker.step functions) s' >>= fun s => s.finish source := by
  induction ls generalizing done inner block s with
  | nil =>
    have hopen : (!s.blocks.isEmpty || s.depth != 0) = true := by simp [h.blocks]
    rw [List.foldlM_nil, pure_bind, finish, if_pos hopen]
    rfl
  | cons l ls ih =>
    rw [List.foldlM_cons, bind_assoc]
    by_cases hclose : s.blocks.length = outer.length + 1 ∧ l.Reads .closeBrace
    · obtain ⟨hheight, hl⟩ := hclose
      obtain rfl := h.length_blocks_iff.mp hheight
      rw [consume_closeBrace hheight hl, returns_of_blocks h.blocks, Checker.step]
      simp only [bind_assoc, pure_bind]
      refine bind_congr_of_ok fun line hline => ?_
      have hstatement : line.statement = .closeBrace :=
        NumberedLine.Reads.unique ⟨line, result_readLine_eq_ok_iff.mp hline, rfl⟩ hl
      have hblocks : s.blocks = block :: outer := h.blocks
      simp only [dispatch, hblocks, hstatement, performInside, bind_assoc]
    · rw [consume_of_open hclose, bind_assoc]
      refine bind_congr_of_ok fun s₁ hstep => ?_
      have hopen : inner = [] → ¬l.Reads .closeBrace := fun hinner hl => hclose ⟨h.length_blocks_iff.mpr hinner, hl⟩
      obtain ⟨inner', block', hopener, h₁⟩ := h.step hstep hopen
      rw [ih h₁, hopener]

/-- The pass is made of its blocks: it consumes the lines of a block that has been opened, leaves the block, and goes
on. -/
theorem foldlM_step_eq_consume {opener : Opener} (hopen : s.blocks = ⟨opener, false⟩ :: outer) (source : String) :
    (ls.foldlM (step functions) s >>= fun s => s.finish source) =
      s.consume functions outer.length ls >>= fun (ended, s', rest) =>
        s'.leaveBlock ⟨opener, ended⟩ outer >>= fun s' =>
          rest.foldlM (step functions) s' >>= fun s => s.finish source :=
  (partway_start hopen).foldlM_step_eq_consume source

/-- Where `consume` comes to the end of a block that has just been opened, it has read the fewest lines with one more
`closings` than `guards`, all of them statements and no headers; one block less is counted, as many tables are open, and
`ended` says whether `lastSaid` was a `return`.  There the pass leaves the block and goes on. -/
theorem consumes_one_block {opener : Opener} (hopen : s.blocks = ⟨opener, false⟩ :: outer)
    (hs : (s.consume functions outer.length ls).result = .ok (ended, s', rest)) :
    (∃ body last, ls = body ++ last :: rest ∧ last.Reads .closeBrace ∧
      (∀ l ∈ body, ∃ statement, l.Reads statement ∧ ∀ h, statement ≠ .function h) ∧
      closings (body ++ [last]) = guards (body ++ [last]) + 1 ∧
      (∀ front, front <+: ls → closings front = guards front + 1 → body.length + 1 ≤ front.length) ∧
      s.depth = s'.depth + 1 ∧ s'.scopes.stack.length = s.scopes.stack.length ∧
      (ended = true ↔ lastSaid body = some .return)) ∧
    ∀ source, (ls.foldlM (step functions) s >>= fun s => s.finish source).result =
      (s'.leaveBlock ⟨opener, ended⟩ outer >>= fun s' =>
        rest.foldlM (step functions) s' >>= fun s => s.finish source).result := by
  refine ⟨?_, fun source => by rw [foldlM_step_eq_consume hopen source, result_bind, hs]; rfl⟩
  obtain ⟨body, last, block, s₁, rfl, h, hlast, hreturns, hdepth, hscopes⟩ := (partway_start hopen).of_consume hs
  have hbalance := h.balance
  rw [List.nil_append] at h hbalance
  refine ⟨body, last, rfl, hlast, h.reads, ?_, ?_, h.depth.symm.trans hdepth, hscopes ▸ h.stack, ?_⟩
  · rw [closings_concat hlast, guards_concat hlast, hbalance]
    rfl
  · intro front hfront hexcess
    refine Nat.lt_of_not_le fun hshort => ?_
    have hprefix : front <+: body := List.prefix_of_prefix_length_le hfront (List.prefix_append body _) hshort
    have hbalanced := h.balance_front front hprefix
    omega
  · exact hreturns ▸ h.returns_iff rfl

/-- A function whose last line before the brace closes a condition, which ended in a `return`, does not end in one; the
line behind the function is left. -/
theorem consumes_one_block_guard_returns :
    let s : Checker := ⟨⟨[], [[], []]⟩, 1, 1, [⟨.function, false⟩]⟩
    let condition : List NumberedLine := [⟨2, "if (true) \x7b"⟩, ⟨3, "return;"⟩, ⟨4, "\x7d"⟩, ⟨5, "// done"⟩]
    ∃ s', (s.consume {} 0 (condition ++ [⟨6, "\x7d"⟩, ⟨7, "int a;"⟩])).result = .ok (false, s', [⟨7, "int a;"⟩]) ∧
      s'.depth = 0 ∧ s'.scopes.stack.length = 2 ∧ lastSaid condition ≠ some .return := by
  intro s condition
  have hopen : s.blocks = [⟨.function, false⟩] := rfl
  have hrun : (s.consume {} 0 (condition ++ [⟨6, "\x7d"⟩, ⟨7, "int a;"⟩])).result.toOption =
      some (false, ⟨⟨[], [[], []]⟩, 0, 6, [⟨.function, false⟩]⟩, [⟨7, "int a;"⟩]) := by decide +kernel
  cases hresult : (s.consume {} 0 (condition ++ [⟨6, "\x7d"⟩, ⟨7, "int a;"⟩])).result with
  | error stop => rw [hresult] at hrun; cases hrun
  | ok out =>
    rw [hresult] at hrun
    obtain rfl := Option.some.inj hrun
    obtain ⟨⟨body, last, hlines, -, -, -, -, hdepth, hstack, hreturns⟩, -⟩ := consumes_one_block hopen hresult
    have hbody : body = condition := by
      have hlength := congrArg List.length hlines
      simp only [List.length_append, List.length_cons, List.length_nil] at hlength
      exact (List.append_inj_left hlines (by omega)).symm
    refine ⟨_, rfl, Nat.succ.inj hdepth.symm, hstack, fun hsaid => ?_⟩
    exact Bool.false_ne_true (hreturns.mpr (hbody ▸ hsaid))

end Consume

end Checker

end LineCheck
