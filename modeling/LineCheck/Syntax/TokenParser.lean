import LineCheck.Syntax.Error

/-!
# LineCheck.Syntax.TokenParser — reading a statement off a list of tokens

A parser takes tokens from the front of a list.  Whether it succeeds or fails it says where it stopped: what it leaves
is the end of the list that it was given, and that is a field of the type (`run_suffix`).  So a failure needs no place
of its own, because the token at which it arose is the first of those left, and a loop that takes a token each time
round comes to an end.
-/

namespace LineCheck

/-- A reader of tokens: what it made of them, or what it wanted and did not find, and the tokens that are left. -/
structure TokenParser (α : Type) where
  run : List Token → Except Expected α × List Token
  run_suffix : ∀ ts, (run ts).2 <:+ ts

namespace TokenParser

variable {α β : Type}

theorem length_run_le (p : TokenParser α) (ts : List Token) : (p.run ts).2.length ≤ ts.length :=
  (p.run_suffix ts).length_le

/-! ### Sequence -/

/-- Take nothing. -/
protected def pure (a : α) : TokenParser α where
  run ts := (.ok a, ts)
  run_suffix ts := List.suffix_refl ts

/-- One parser and then another, which may depend on what the first one made. -/
protected def bind (p : TokenParser α) (f : α → TokenParser β) : TokenParser β where
  run ts :=
    match p.run ts with
    | (.ok a, rest) => (f a).run rest
    | (.error e, rest) => (.error e, rest)
  run_suffix ts := by
    have hp := p.run_suffix ts
    split
    · next a rest h => rw [h] at hp; exact ((f a).run_suffix rest).trans hp
    · next e rest h => rw [h] at hp; exact hp

instance : Monad TokenParser where
  pure := TokenParser.pure
  bind := TokenParser.bind

@[simp] theorem run_pure (a : α) (ts : List Token) : (pure a : TokenParser α).run ts = (.ok a, ts) := rfl

theorem run_bind (p : TokenParser α) (f : α → TokenParser β) (ts : List Token) :
    (p >>= f).run ts =
      match p.run ts with
      | (.ok a, rest) => (f a).run rest
      | (.error e, rest) => (.error e, rest) := rfl

@[ext] theorem ext {p q : TokenParser α} (h : ∀ ts, p.run ts = q.run ts) : p = q := by
  cases p
  cases q
  congr
  exact funext h

protected theorem id_map (p : TokenParser α) : id <$> p = p := by
  refine TokenParser.ext fun ts => ?_
  show (p >>= fun a => pure (id a)).run ts = p.run ts
  rw [run_bind]
  rcases p.run ts with ⟨e | a, rest⟩ <;> rfl

protected theorem bind_assoc {γ : Type} (p : TokenParser α) (f : α → TokenParser β) (g : β → TokenParser γ) :
    p >>= f >>= g = p >>= fun a => f a >>= g := by
  refine TokenParser.ext fun ts => ?_
  simp only [run_bind]
  rcases p.run ts with ⟨e | a, rest⟩ <;> rfl

instance : LawfulMonad TokenParser :=
  LawfulMonad.mk' TokenParser TokenParser.id_map (fun _ _ => rfl) TokenParser.bind_assoc

/-! ### Single tokens -/

/-- Fail here. -/
def fail (wanted : Expected) : TokenParser α where
  run ts := (.error wanted, ts)
  run_suffix ts := List.suffix_refl ts

/-- The kinds of the next two tokens, fewer at the end of the line; nothing is taken. -/
def upcoming : TokenParser (List TokenKind) where
  run ts := (.ok ((ts.take 2).map Token.kind), ts)
  run_suffix ts := List.suffix_refl ts

/-- Take the next token if `read` makes something of it, and fail otherwise. -/
def take (wanted : Expected) (read : Token → Option α) : TokenParser α where
  run
    | [] => (.error wanted, [])
    | t :: ts =>
      match read t with
      | some a => (.ok a, ts)
      | none => (.error wanted, t :: ts)
  run_suffix ts := by
    cases ts with
    | nil => exact List.suffix_refl _
    | cons t ts =>
      simp only
      cases read t with
      | some a => exact List.suffix_cons t ts
      | none => exact List.suffix_refl _

@[simp] theorem run_fail (wanted : Expected) (ts : List Token) :
    (fail wanted : TokenParser α).run ts = (.error wanted, ts) := rfl

@[simp] theorem run_upcoming (ts : List Token) : upcoming.run ts = (.ok ((ts.take 2).map Token.kind), ts) := rfl

theorem run_take_of_some {wanted : Expected} {read : Token → Option α} {t : Token} {a : α} (h : read t = some a)
    (ts : List Token) : (take wanted read).run (t :: ts) = (.ok a, ts) := by
  simp [take, h]

theorem run_take_of_none {wanted : Expected} {read : Token → Option α} {t : Token} (h : read t = none)
    (ts : List Token) : (take wanted read).run (t :: ts) = (.error wanted, t :: ts) := by
  simp [take, h]

@[simp] theorem run_take_nil (wanted : Expected) (read : Token → Option α) :
    (take wanted read).run [] = (.error wanted, []) := rfl

/-- Take the next token if it has this kind, and fail otherwise. -/
def one (kind : TokenKind) : TokenParser Unit :=
  take (.kind kind) fun t => if t.kind = kind then some () else none

/-- Take the next token if it has this kind, and say whether it had. -/
def optional (kind : TokenKind) : TokenParser Bool where
  run
    | [] => (.ok false, [])
    | t :: ts => if t.kind = kind then (.ok true, ts) else (.ok false, t :: ts)
  run_suffix ts := by
    cases ts with
    | nil => exact List.suffix_refl _
    | cons t ts =>
      simp only
      split
      · exact List.suffix_cons t ts
      · exact List.suffix_refl _

/-- No token is left. -/
def endOfLine : TokenParser Unit where
  run ts := (if ts.isEmpty then .ok () else .error (.kind .endOfLine), ts)
  run_suffix ts := List.suffix_refl ts

/-! ### Repetition -/

/-- As long as `join` makes something of the next token: take it, and an item behind it. -/
def linksFrom (join : TokenKind → Option β) (item : TokenParser α) :
    List Token → Except Expected (List (β × α)) × List Token
  | [] => (.ok [], [])
  | t :: ts =>
    match join t.kind with
    | none => (.ok [], t :: ts)
    | some b =>
      match _h : item.run ts with
      | (.error e, rest) => (.error e, rest)
      | (.ok a, rest) =>
        match linksFrom join item rest with
        | (.error e, last) => (.error e, last)
        | (.ok more, last) => (.ok ((b, a) :: more), last)
termination_by ts => ts.length
decreasing_by
  have hle := item.length_run_le ts
  simp_all only [List.length_cons]
  omega

theorem linksFrom_suffix (join : TokenKind → Option β) (item : TokenParser α) (ts : List Token) :
    (linksFrom join item ts).2 <:+ ts := by
  fun_induction linksFrom join item ts with
  | case1 => exact List.suffix_refl _
  | case2 t ts h => exact List.suffix_refl _
  | case3 t ts b hb e rest h =>
    have hs := item.run_suffix ts
    rw [h] at hs
    exact hs.trans (List.suffix_cons t ts)
  | case4 t ts b hb a rest h e last hl ih =>
    have hs := item.run_suffix ts
    rw [h] at hs
    rw [hl] at ih
    exact (ih.trans hs).trans (List.suffix_cons t ts)
  | case5 t ts b hb a rest h more last hl ih =>
    have hs := item.run_suffix ts
    rw [h] at hs
    rw [hl] at ih
    exact (ih.trans hs).trans (List.suffix_cons t ts)

/-- Items each behind a token that joins it to what came before; perhaps none. -/
def links (join : TokenKind → Option β) (item : TokenParser α) : TokenParser (List (β × α)) where
  run := linksFrom join item
  run_suffix := linksFrom_suffix join item

/-- A comma. -/
def comma (kind : TokenKind) : Option Unit :=
  if kind = .symbol .comma then some () else none

/-- One item or more, with commas between them. -/
def commaList (item : TokenParser α) : TokenParser (List α) := do
  let first ← item
  let more ← links comma item
  return first :: more.map Prod.snd

end TokenParser

end LineCheck
