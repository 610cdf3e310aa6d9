import LineCheck.Proofs.Syntax.Recognition

/-!
# LineCheck.Proofs.Syntax.Locality — what a parser looks at

The parsers of the grammar look no further than at the token behind those that they take, and at the kinds and texts
only.  Such a parser is `Local`: on tokens that start with the same kinds and texts, as far as it has taken them and
one further, it makes the same and stops at the same place, whether it succeeds or fails.  There is one lemma for each
combinator.  Only a statement looks at two tokens, at its start (`Grammar.branch`), so for a line they have to decide
alike as well (`Grammar.run_line_of_alike`).
-/

namespace LineCheck

namespace TokenParser

variable {α β : Type} {p : TokenParser α} {ts ts' rest : List Token} {taken more : List TokenForm}

/-- On the tokens `ts` the parser goes by the forms of those that it takes and of the one behind them. -/
def LocalAt (p : TokenParser α) (ts : List Token) : Prop :=
  ∀ ⦃r rest⦄, p.run ts = (r, rest) → ∀ ⦃taken more ts'⦄, ts.map Token.form = taken ++ rest.map Token.form →
    ts'.map Token.form = taken ++ more → more.head? = (rest.map Token.form).head? →
    ∃ rest', p.run ts' = (r, rest') ∧ rest'.map Token.form = more

/-- The parser goes by the forms of the tokens that it takes and of the one behind them. -/
def Local (p : TokenParser α) : Prop :=
  ∀ ts, p.LocalAt ts

/-- The forms of the tokens that a parser takes. -/
theorem exists_taken {r : Except Expected α} (h : p.run ts = (r, rest)) :
    ∃ taken, ts.map Token.form = taken ++ rest.map Token.form := by
  obtain ⟨front, hfront⟩ := p.run_suffix ts
  rw [h] at hfront
  exact ⟨front.map Token.form, by rw [← hfront, List.map_append]⟩

/-- Where one list of tokens starts with a token, so does the other. -/
theorem exists_cons_of_head? {t : Token} (h : (ts'.map Token.form).head? = ((t :: ts).map Token.form).head?) :
    ∃ t' tail, ts' = t' :: tail ∧ t'.form = t.form := by
  cases ts' with
  | nil => cases h
  | cons t' tail => exact ⟨t', tail, rfl, Option.some.inj h⟩

/-- The kind of the first token is that of its form. -/
theorem head?_map_kind (ts : List Token) :
    (ts.map Token.kind).head? = (ts.map Token.form).head?.map TokenForm.kind := by
  cases ts <;> rfl

/-! ### Combinators -/

/-- A parser that stops before the first token, as it does wherever such a token is the first one. -/
theorem localAt_of_stop {r : Except Expected α} (hrun : p.run ts = (r, ts))
    (h : ∀ ts', (ts'.map Token.form).head? = (ts.map Token.form).head? → p.run ts' = (r, ts')) : p.LocalAt ts := by
  intro r' rest hrun' taken more ts' hts hts' hhead
  rw [hrun] at hrun'
  cases hrun'
  obtain rfl : taken = [] := List.self_eq_append_left.mp hts
  rw [List.nil_append] at hts'
  exact ⟨ts', h ts' (hts' ▸ hhead), hts'⟩

/-- A parser that takes the first token and goes on as another one, as it does wherever such a token is the first. -/
theorem localAt_of_cons {q : TokenParser α} {t : Token} (h : ∀ t' ts', t'.form = t.form → p.run (t' :: ts') = q.run ts')
    (hq : q.LocalAt ts) : p.LocalAt (t :: ts) := by
  intro r rest hrun taken more ts' hts hts' hhead
  rw [h t ts rfl] at hrun
  obtain ⟨back, hback⟩ := exists_taken hrun
  have htaken : taken = t.form :: back := by
    rw [List.map_cons, hback, ← List.cons_append] at hts
    exact (List.append_cancel_right hts).symm
  rw [htaken, List.cons_append] at hts'
  cases ts' with
  | nil => cases hts'
  | cons t' ts' =>
    obtain ⟨hform, hmore⟩ := List.cons.inj hts'
    rw [h t' ts' hform]
    exact hq hrun hback hmore hhead

/-- A parser that takes nothing and always says the same. -/
theorem local_of_run {r : Except Expected α} (h : ∀ ts, p.run ts = (r, ts)) : p.Local :=
  fun ts => localAt_of_stop (h ts) fun ts' _ => h ts'

theorem local_pure (a : α) : (pure a : TokenParser α).Local :=
  local_of_run fun _ => rfl

theorem local_fail (wanted : Expected) : (fail wanted : TokenParser α).Local :=
  local_of_run fun _ => rfl

/-- Two parsers in turn, of which the second one matters where the first one stops. -/
theorem LocalAt.bind {f : α → TokenParser β} (hp : p.LocalAt ts)
    (hf : ∀ a mid, p.run ts = (.ok a, mid) → (f a).LocalAt mid) : (p >>= f).LocalAt ts := by
  intro r rest h taken more ts' hts hts' hhead
  rw [run_bind] at h
  cases hrun : p.run ts with
  | mk r₁ mid =>
    rw [hrun] at h
    cases r₁ with
    | error e =>
      cases h
      obtain ⟨rest', hrun', hrest'⟩ := hp hrun hts hts' hhead
      exact ⟨rest', by rw [run_bind, hrun'], hrest'⟩
    | ok a =>
      obtain ⟨front, hfront⟩ := exists_taken hrun
      obtain ⟨back, hback⟩ := exists_taken h
      have htaken : taken = front ++ back := by
        rw [hfront, hback, ← List.append_assoc] at hts
        exact (List.append_cancel_right hts).symm
      rw [htaken, List.append_assoc] at hts'
      have hmid : (back ++ more).head? = (mid.map Token.form).head? := by
        rw [hback, List.head?_append, List.head?_append, hhead]
      obtain ⟨mid', hrun', hmid'⟩ := hp hrun hfront hts' hmid
      obtain ⟨rest', hmore', hrest'⟩ := hf a mid hrun h hback hmid' hhead
      exact ⟨rest', run_bind_of_ok hrun' hmore', hrest'⟩

theorem Local.bind {f : α → TokenParser β} (hp : p.Local) (hf : ∀ a, (f a).Local) : (p >>= f).Local :=
  fun ts => (hp ts).bind fun a mid _ => hf a mid

/-- A token of which something is made that goes by its form. -/
theorem local_take {wanted : Expected} {read : Token → Option α} (hread : ∀ t t', t'.form = t.form → read t' = read t) :
    (take wanted read).Local := by
  intro ts
  cases ts with
  | nil =>
    refine localAt_of_stop rfl fun ts' hhead => ?_
    obtain rfl : ts' = [] := by simpa using hhead
    rfl
  | cons t ts =>
    cases ht : read t with
    | some a =>
      refine localAt_of_cons (fun t' ts' hform => ?_) (local_pure a ts)
      exact run_take_of_some ((hread t t' hform).trans ht) ts'
    | none =>
      refine localAt_of_stop (run_take_of_none ht ts) fun ts' hhead => ?_
      obtain ⟨t', tail, rfl, hform⟩ := exists_cons_of_head? hhead
      exact run_take_of_none ((hread t t' hform).trans ht) tail

theorem local_one (kind : TokenKind) : (one kind).Local := by
  refine local_take fun t t' hform => ?_
  have hkind : t'.kind = t.kind := congrArg TokenForm.kind hform
  rw [hkind]

theorem local_optional (kind : TokenKind) : (optional kind).Local := by
  intro ts
  cases ts with
  | nil =>
    refine localAt_of_stop rfl fun ts' hhead => ?_
    obtain rfl : ts' = [] := by simpa using hhead
    rfl
  | cons t ts =>
    by_cases hkind : t.kind = kind
    · refine localAt_of_cons (fun t' ts' hform => ?_) (local_pure true ts)
      exact if_pos ((congrArg TokenForm.kind hform).trans hkind)
    · refine localAt_of_stop (if_neg hkind) fun ts' hhead => ?_
      obtain ⟨t', tail, rfl, hform⟩ := exists_cons_of_head? hhead
      exact if_neg fun h => hkind ((congrArg TokenForm.kind hform).symm.trans h)

theorem local_endOfLine : endOfLine.Local := by
  intro ts
  refine localAt_of_stop rfl fun ts' hhead => ?_
  have hempty : ts'.isEmpty = ts.isEmpty := by
    cases ts <;> cases ts' <;> simp at hhead ⊢
  simp only [endOfLine, hempty]

/-- A parser that is chosen by the kind of the next token. -/
theorem local_upcoming {f : List TokenKind → TokenParser α} (hf : ∀ ks, (f ks).Local)
    (hfirst : ∀ ks ks', ks'.head? = ks.head? → f ks' = f ks) : (upcoming >>= f).Local := by
  intro ts r rest hrun taken more ts' hts hts' hhead
  have hforms : (ts'.map Token.form).head? = (ts.map Token.form).head? := by
    rw [hts, hts', List.head?_append, List.head?_append, hhead]
  have hkinds : ((ts'.take 2).map Token.kind).head? = ((ts.take 2).map Token.kind).head? := by
    rw [List.map_take, List.map_take, List.head?_take, List.head?_take, head?_map_kind, head?_map_kind, hforms]
  have hchosen := hfirst _ _ hkinds
  obtain ⟨rest', hrun', hrest'⟩ := hf _ ts hrun hts hts' hhead
  exact ⟨rest', run_bind_of_ok (run_upcoming ts') (hchosen ▸ hrun'), hrest'⟩

/-- No item comes where no token joins. -/
theorem run_links_of_none {join : TokenKind → Option β} {item : TokenParser α}
    (h : ∀ k ∈ (ts.map Token.kind).head?, join k = none) : (links join item).run ts = (.ok [], ts) := by
  cases ts with
  | nil => simp [links, linksFrom]
  | cons t ts =>
    show linksFrom join item (t :: ts) = _
    unfold linksFrom
    rw [h t.kind rfl]

/-- Where a token joins, an item comes behind it, and then further ones. -/
theorem run_links_of_some {join : TokenKind → Option β} {item : TokenParser α} {t : Token} {b : β}
    (hjoin : join t.kind = some b) (ts : List Token) :
    (links join item).run (t :: ts) =
      (item >>= fun a => links join item >>= fun more => pure ((b, a) :: more)).run ts := by
  show linksFrom join item (t :: ts) = _
  unfold linksFrom
  simp only [hjoin]
  rw [run_bind]
  split
  · next e mid hrun => rw [hrun]
  · next a mid hrun =>
    rw [hrun]
    simp only [run_bind, links, run_pure]
    rcases linksFrom join item mid with ⟨e | more, last⟩ <;> rfl

/-- As many items as tokens join. -/
theorem local_links {join : TokenKind → Option β} {item : TokenParser α} (hitem : item.Local) :
    (links join item).Local := by
  intro ts
  induction hlength : ts.length using Nat.strong_induction_on generalizing ts with
  | _ n ih =>
    by_cases hnone : ∀ k ∈ (ts.map Token.kind).head?, join k = none
    · refine localAt_of_stop (run_links_of_none hnone) fun ts' hhead => run_links_of_none ?_
      rwa [head?_map_kind, hhead, ← head?_map_kind]
    · cases ts with
      | nil => exact absurd nofun hnone
      | cons t ts =>
        obtain ⟨b, hb⟩ : ∃ b, join t.kind = some b := by
          rw [← Option.ne_none_iff_exists']
          exact fun h => hnone fun k hk => by cases hk; exact h
        have hmore : (item >>= fun a => links join item >>= fun more => pure ((b, a) :: more)).LocalAt ts := by
          refine (hitem ts).bind fun a mid hrun => ?_
          have hle := item.length_run_le ts
          rw [hrun] at hle
          have hshorter : mid.length < n := hlength ▸ Nat.lt_succ_of_le hle
          exact (ih mid.length hshorter mid rfl).bind fun more last _ => local_pure _ last
        refine localAt_of_cons (fun t' ts' hform => run_links_of_some ?_ ts') hmore
        have hkind : t'.kind = t.kind := congrArg TokenForm.kind hform
        rw [hkind, hb]

theorem local_commaList {item : TokenParser α} (hitem : item.Local) : (commaList item).Local :=
  hitem.bind fun _ => (local_links hitem).bind fun _ => local_pure _

end TokenParser

/-! ### The grammar -/

namespace Grammar

open TokenParser

theorem local_type : type.Local := by
  refine local_take fun t t' hform => ?_
  have hkind : t'.kind = t.kind := congrArg TokenForm.kind hform
  rw [hkind]

theorem local_variableName : variableName.Local := by
  refine local_take fun t t' hform => ?_
  obtain ⟨hkind, htext⟩ := TokenForm.mk.inj hform
  unfold Token.variableName?
  rw [hkind, htext]

theorem local_functionName : functionName.Local := by
  refine local_take fun t t' hform => ?_
  obtain ⟨hkind, htext⟩ := TokenForm.mk.inj hform
  unfold Token.functionName?
  rw [hkind, htext]

theorem local_value : value.Local := by
  refine local_take fun t t' hform => ?_
  obtain ⟨hkind, htext⟩ := TokenForm.mk.inj hform
  unfold Token.value?
  rw [hkind, htext]

theorem local_operand : operand.Local := by
  refine local_upcoming (fun ks => ?_) fun ks ks' hhead => ?_
  · split
    · exact local_fail _
    · exact local_fail _
    · exact local_value
  · rcases ks with _ | ⟨k, ks⟩ <;> rcases ks' with _ | ⟨k', ks'⟩ <;> cases hhead
    · rfl
    · cases k <;> rfl

theorem local_declarator (isFinal : Bool) : (declarator isFinal).Local := by
  refine local_variableName.bind fun x => ?_
  have hvalue : (value >>= fun v => pure (Declarator.mk x (some v))).Local := local_value.bind fun _ => local_pure _
  cases isFinal with
  | true => exact (local_one _).bind fun _ => hvalue
  | false =>
    refine (local_optional _).bind fun given => ?_
    cases given with
    | true => exact hvalue
    | false => exact local_pure _

theorem local_assignment : assignment.Local :=
  local_variableName.bind fun _ => (local_one _).bind fun _ => local_value.bind fun _ => local_pure _

theorem local_param : param.Local :=
  (local_optional _).bind fun _ => local_type.bind fun _ => local_variableName.bind fun _ => local_pure _

theorem local_parenthesised {α : Type} {item : TokenParser α} (hitem : item.Local) : (parenthesised item).Local := by
  refine (local_one _).bind fun _ => local_upcoming (fun ks => ?_) fun ks ks' hhead => ?_
  · have hclose : ∀ items : List α, (one (.symbol .rightParen) >>= fun _ => pure items).Local :=
      fun items => (local_one _).bind fun _ => local_pure items
    split
    · exact (local_pure []).bind hclose
    · exact (local_commaList hitem).bind hclose
  · rcases ks with _ | ⟨k, ks⟩ <;> rcases ks' with _ | ⟨k', ks'⟩ <;> cases hhead
    · rfl
    · cases k with
      | symbol s => cases s <;> rfl
      | _ => rfl

theorem local_declaration : declaration.Local :=
  (local_optional _).bind fun isFinal => local_type.bind fun _ =>
    (local_commaList (local_declarator isFinal)).bind fun _ => (local_one _).bind fun _ => local_pure _

theorem local_assignments : assignments.Local :=
  (local_commaList local_assignment).bind fun _ => (local_one _).bind fun _ => local_pure _

theorem local_header : header.Local :=
  (local_one _).bind fun _ => local_functionName.bind fun _ => (local_parenthesised local_param).bind fun _ =>
    (local_one _).bind fun _ => local_pure _

theorem local_call : call.Local :=
  local_functionName.bind fun _ => (local_parenthesised local_value).bind fun _ =>
    (local_one _).bind fun _ => local_pure _

theorem local_condition : condition.Local :=
  (local_one _).bind fun _ => local_operand.bind fun _ => (local_links local_operand).bind fun _ =>
    (local_one _).bind fun _ => (local_one _).bind fun _ => local_pure _

/-- What the kinds of the next two tokens decide the statement to be. -/
def branch : List TokenKind → TokenParser Statement
  | .keyword .final :: _ => do return .declaration (← declaration)
  | .keyword (.type _) :: _ => do return .declaration (← declaration)
  | .keyword .void :: _ => do return .function (← header)
  | .keyword (.guard word) :: _ => do
    one (.keyword (.guard word))
    return .guard word (← condition)
  | .keyword .return :: _ => do
    one (.keyword .return)
    one (.symbol .semicolon)
    return .return
  | .symbol .rightBrace :: _ => do
    one (.symbol .rightBrace)
    return .closeBrace
  | .identifier :: .symbol .leftParen :: _ => do return .call (← call)
  | .identifier :: _ => do return .assignment (← assignments)
  | _ => fail .statement

theorem statement_eq : statement = upcoming >>= branch := rfl

theorem local_branch (ks : List TokenKind) : (branch ks).Local := by
  unfold branch
  split
  · exact local_declaration.bind fun _ => local_pure _
  · exact local_declaration.bind fun _ => local_pure _
  · exact local_header.bind fun _ => local_pure _
  · exact (local_one _).bind fun _ => local_condition.bind fun _ => local_pure _
  · exact (local_one _).bind fun _ => (local_one _).bind fun _ => local_pure _
  · exact (local_one _).bind fun _ => local_pure _
  · exact local_call.bind fun _ => local_pure _
  · exact local_assignments.bind fun _ => local_pure _
  · exact local_fail _

/-- A name starts an assignment, unless an opening parenthesis is behind it. -/
theorem branch_identifier {ks : List TokenKind} (h : ks.head? ≠ some (.symbol .leftParen)) :
    branch (.identifier :: ks) = assignments >>= fun as => pure (.assignment as) := by
  cases ks with
  | nil => rfl
  | cons k ks =>
    cases k with
    | symbol s =>
      cases s with
      | leftParen => exact absurd rfl h
      | _ => rfl
    | _ => rfl

/-- Only a name leaves it to the token behind it. -/
theorem branch_cons_of_ne {k : TokenKind} (hk : k ≠ .identifier) (ks ks' : List TokenKind) :
    branch (k :: ks) = branch (k :: ks') := by
  cases k with
  | identifier => exact absurd rfl hk
  | keyword w => cases w <;> rfl
  | symbol s => cases s <;> rfl
  | _ => rfl

theorem run_line (ts : List Token) :
    line.run ts = (branch ((ts.take 2).map Token.kind) >>= fun s => endOfLine >>= fun _ => pure s).run ts := by
  rw [line, statement_eq, bind_assoc]
  rfl

/-- Where the first tokens decide alike, a line goes by the forms of the tokens that it takes and of the one behind
them. -/
theorem run_line_of_alike {ts ts' rest : List Token} {taken more : List TokenForm} {r : Except Expected Statement}
    (hbranch : branch ((ts'.take 2).map Token.kind) = branch ((ts.take 2).map Token.kind))
    (h : line.run ts = (r, rest)) (hts : ts.map Token.form = taken ++ rest.map Token.form)
    (hts' : ts'.map Token.form = taken ++ more) (hhead : more.head? = (rest.map Token.form).head?) :
    ∃ rest', line.run ts' = (r, rest') ∧ rest'.map Token.form = more := by
  rw [run_line] at h ⊢
  rw [hbranch]
  exact ((local_branch _).bind fun s => local_endOfLine.bind fun _ => local_pure s) ts h hts hts' hhead

end Grammar

end LineCheck
