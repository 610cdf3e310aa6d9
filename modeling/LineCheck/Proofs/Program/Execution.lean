import LineCheck.Proofs.Program.Verdict

/-!
# LineCheck.Proofs.Program.Execution — what an accepted program does with values

A machine that really copies: where a variable is stored, the literal that it holds is stored, and so on through any
chain of copies.  It looks at no type.  It only notes each literal that arrives somewhere together with the type that is
wanted there, and it cannot go on where a variable that is read is missing or holds nothing.  A run is a sequence of
actions (`Program.run_eq_foldlM`), and every action with a value is noted (`Program.exists_arrival`).

A function of an accepted program, started with arguments that fit its parameters, runs to its end, and everything that
arrives anywhere fits (`arrivals_fit`).  The invariant is that the store holds what the environment says (`Sound`): the
variable has the type that the rules think it has, it holds something if they think so, and what it holds fits.
-/

namespace LineCheck

/-! ### The machine -/

/-- A variable as it is in memory: its type, and the literal that it holds, if any. -/
structure Cell where
  ty : Ty
  value : Option Literal
  deriving DecidableEq, Repr

namespace Cell

/-- The variable holding the literal. -/
def put (l : Literal) (cell : Cell) : Cell :=
  { cell with value := some l }

end Cell

/-- A literal that has come to a place where one of the type is wanted: a variable that it is stored in, a parameter
that it is passed to, or a condition that it is tested in. -/
structure Arrival where
  literal : Literal
  ty : Ty
  deriving DecidableEq, Repr

/-- The memory, and what has arrived so far, the last first. -/
structure Machine where
  store : Layers Cell
  arrivals : List Arrival

/-- Why the machine cannot go on. -/
inductive Fault where
  | undeclared (name : String)
  | unassigned (name : String)
  | unknownFunction (name : String)
  | wrongArity (name : String)
  deriving DecidableEq, Repr

namespace Machine

/-- Nothing is declared and nothing has arrived. -/
def start : Machine :=
  ⟨Layers.empty, []⟩

/-- The literal that a value stands for. -/
def read (m : Machine) : Value → Except Fault Literal
  | .literal l => .ok l
  | .name n =>
    match m.store.find? n with
    | none => .error (.undeclared n)
    | some cell =>
      match cell.value with
      | none => .error (.unassigned n)
      | some l => .ok l

/-- A value is passed or tested where one of the type is wanted. -/
def supply (m : Machine) (ty : Ty) (v : Value) : Except Fault Machine := do
  let l ← m.read v
  return { m with arrivals := ⟨l, ty⟩ :: m.arrivals }

/-- Values are passed or tested one after the other, each where one of its type is wanted. -/
def supplyAll (m : Machine) (args : List (Ty × Value)) : Except Fault Machine :=
  args.foldlM (fun m arg => m.supply arg.1 arg.2) m

/-- A new variable, with a first value or without. -/
def declare (ty : Ty) (m : Machine) (d : Declarator) : Except Fault Machine :=
  match d.init with
  | none => .ok { m with store := m.store.add d.name ⟨ty, none⟩ }
  | some v => do
    let l ← m.read v
    return ⟨m.store.add d.name ⟨ty, some l⟩, ⟨l, ty⟩ :: m.arrivals⟩

/-- A value is stored in the variable that the name means. -/
def assign (m : Machine) (a : Assignment) : Except Fault Machine :=
  match m.store.find? a.name with
  | none => .error (.undeclared a.name)
  | some cell => do
    let l ← m.read a.value
    return ⟨m.store.modify a.name (Cell.put l), ⟨l, cell.ty⟩ :: m.arrivals⟩

/-- The arguments of a call are passed; the function that is called is not run. -/
def call (headers : List Header) (m : Machine) (c : Call) : Except Fault Machine :=
  match headers.find? (·.name == c.name) with
  | none => .error (.unknownFunction c.name)
  | some h =>
    if h.params.length = c.args.length then m.supplyAll ((h.params.map Param.ty).zip c.args)
    else .error (.wrongArity c.name)

/-- The operands of a condition are tested. -/
def test (m : Machine) (c : Condition) : Except Fault Machine :=
  m.supplyAll (c.operands.map (Ty.boolean, ·))

/-- The parameters are variables that hold the arguments from the beginning. -/
def bind (m : Machine) (params : List Param) (args : List Literal) : Machine :=
  { m with store := (params.zip args).foldl (fun store arg => store.add arg.1.name ⟨arg.1.ty, some arg.2⟩) m.store }

/-- The machine after a line. -/
def runLine (m : Machine) : PlainLine → Except Fault Machine
  | .blank => .ok m
  | .comment => .ok m
  | .declaration d => d.declarators.foldlM (declare d.ty) m
  | .assignment as => as.foldlM assign m

/-- The machine after the lines of a body in their order, where each block is entered once. -/
def runBody (headers : List Header) (m : Machine) : Body → Except Fault Machine
  | .nil => .ok m
  | .plain line rest => do
    let m ← m.runLine line
    m.runBody headers rest
  | .call c rest => do
    let m ← m.call headers c
    m.runBody headers rest
  | .return rest => m.runBody headers rest
  | .guard _ c inner rest => do
    let m ← m.test c
    let m ← { m with store := m.store.openScope }.runBody headers inner
    { m with store := m.store.closeScope }.runBody headers rest

/-- The machine after the lines outside functions. -/
def runGlobals (m : Machine) : List Item → Except Fault Machine
  | [] => .ok m
  | .plain line :: items => do
    let m ← m.runLine line
    m.runGlobals items
  | .function _ :: items => m.runGlobals items

/-- The machine after the lines of a function that is started with these arguments. -/
def runFunction (headers : List Header) (m : Machine) (f : Function) (args : List Literal) : Except Fault Machine :=
  ({ m with store := m.store.openScope }.bind f.header.params args).runBody headers f.body

end Machine

/-- The machine after the lines of the program outside functions, and then those of one function. -/
def Program.run (p : Program) (f : Function) (args : List Literal) : Except Fault Machine := do
  let m ← Machine.start.runGlobals p.items
  m.runFunction p.headers f args

/-! ### What is logged -/

/-- What the machine does at one place of a program. -/
inductive Action where
  | enter
  | leave
  | bind (params : List Param) (args : List Literal)
  | declare (ty : Ty) (declarator : Declarator)
  | assign (assignment : Assignment)
  | supply (ty : Ty) (value : Value)
  | fail (fault : Fault)
  deriving DecidableEq, Repr

/-- The value that the action stores, passes or tests. -/
def Action.value? : Action → Option Value
  | .declare _ d => d.init
  | .assign a => some a.value
  | .supply _ v => some v
  | _ => none

/-- The type that is wanted where the value goes. -/
def Action.wanted? (m : Machine) : Action → Option Ty
  | .declare ty _ => some ty
  | .assign a => (m.store.find? a.name).map Cell.ty
  | .supply ty _ => some ty
  | _ => none

def PlainLine.actions : PlainLine → List Action
  | .blank => []
  | .comment => []
  | .declaration d => d.declarators.map (.declare d.ty)
  | .assignment as => as.map .assign

def Call.actions (headers : List Header) (c : Call) : List Action :=
  match headers.find? (·.name == c.name) with
  | none => [.fail (.unknownFunction c.name)]
  | some h =>
    if h.params.length = c.args.length then
      ((h.params.map Param.ty).zip c.args).map fun arg => .supply arg.1 arg.2
    else [.fail (.wrongArity c.name)]

def Condition.actions (c : Condition) : List Action :=
  c.operands.map (.supply .boolean)

def Body.actions (headers : List Header) : Body → List Action
  | .nil => []
  | .plain line rest => line.actions ++ rest.actions headers
  | .call c rest => c.actions headers ++ rest.actions headers
  | .return rest => rest.actions headers
  | .guard _ c inner rest => c.actions ++ .enter :: (inner.actions headers ++ .leave :: rest.actions headers)

def Item.actions : Item → List Action
  | .plain line => line.actions
  | .function _ => []

/-- What a run of the function comes to, place by place. -/
def Program.actions (p : Program) (f : Function) (args : List Literal) : List Action :=
  p.items.flatMap Item.actions ++ .enter :: .bind f.header.params args :: f.body.actions p.headers

namespace Machine

/-- The machine after the action. -/
def act (m : Machine) : Action → Except Fault Machine
  | .enter => .ok { m with store := m.store.openScope }
  | .leave => .ok { m with store := m.store.closeScope }
  | .bind params args => .ok (m.bind params args)
  | .declare ty d => m.declare ty d
  | .assign a => m.assign a
  | .supply ty v => m.supply ty v
  | .fail e => .error e

variable {m m' : Machine} {a : Action}

theorem runLine_eq_foldlM (m : Machine) (line : PlainLine) : m.runLine line = line.actions.foldlM act m := by
  cases line with
  | blank => rfl
  | comment => rfl
  | declaration d =>
    rw [PlainLine.actions, List.foldlM_map]
    rfl
  | assignment as =>
    rw [PlainLine.actions, List.foldlM_map]
    rfl

theorem call_eq_foldlM (headers : List Header) (m : Machine) (c : Call) :
    m.call headers c = (c.actions headers).foldlM act m := by
  unfold Machine.call Call.actions
  cases headers.find? (·.name == c.name) with
  | none => rfl
  | some h =>
    by_cases harity : h.params.length = c.args.length
    · simp only [if_pos harity, List.foldlM_map]
      rfl
    · simp only [if_neg harity]
      rfl

theorem test_eq_foldlM (m : Machine) (c : Condition) : m.test c = c.actions.foldlM act m := by
  unfold Machine.test Machine.supplyAll Condition.actions
  rw [List.foldlM_map, List.foldlM_map]
  rfl

theorem runBody_eq_foldlM (headers : List Header) (m : Machine) (body : Body) :
    m.runBody headers body = (body.actions headers).foldlM act m := by
  induction body generalizing m with
  | nil => rfl
  | plain line rest ih => simp only [runBody, Body.actions, List.foldlM_append, runLine_eq_foldlM, ih]
  | call c rest ih => simp only [runBody, Body.actions, List.foldlM_append, call_eq_foldlM, ih]
  | «return» rest ih => exact ih m
  | guard w c inner rest ihinner ihrest =>
    simp only [runBody, Body.actions, List.foldlM_append, List.foldlM_cons, test_eq_foldlM, ihinner, ihrest]
    rfl

theorem runGlobals_eq_foldlM (m : Machine) (items : List Item) :
    m.runGlobals items = (items.flatMap Item.actions).foldlM act m := by
  induction items generalizing m with
  | nil => rfl
  | cons item items ih =>
    rw [List.flatMap_cons, List.foldlM_append]
    cases item with
    | plain line => simp only [runGlobals, Item.actions, runLine_eq_foldlM, ih]
    | function f => exact ih m

end Machine

/-- A run does its actions one after the other, and ends where the first one of them ends in a fault. -/
theorem Program.run_eq_foldlM (p : Program) (f : Function) (args : List Literal) :
    p.run f args = (p.actions f args).foldlM Machine.act Machine.start := by
  simp only [run, Machine.runFunction, actions, List.foldlM_append, List.foldlM_cons, Machine.runGlobals_eq_foldlM,
    Machine.runBody_eq_foldlM]
  rfl

namespace Machine

variable {m m' : Machine} {a : Action}

theorem exists_of_bind_eq_ok {α : Type} {x : Except Fault α} {f : α → Except Fault Machine} (h : x >>= f = .ok m) :
    ∃ b, x = .ok b ∧ f b = .ok m := by
  cases x with
  | error e => cases h
  | ok b => exact ⟨b, rfl, h⟩

/-- An action that has a value logs the literal that it stores, passes or tests; any other one logs nothing. -/
theorem arrivals_act (h : m.act a = .ok m') :
    (a.value? = none ∧ m'.arrivals = m.arrivals) ∨
      ∃ v ty l, a.value? = some v ∧ a.wanted? m = some ty ∧ m.read v = .ok l ∧
        m'.arrivals = ⟨l, ty⟩ :: m.arrivals := by
  cases a with
  | enter | leave | bind params args =>
    cases h
    exact .inl ⟨rfl, rfl⟩
  | declare ty d =>
    simp only [act, Machine.declare] at h
    cases hinit : d.init with
    | none =>
      rw [hinit] at h
      cases h
      exact .inl ⟨hinit, rfl⟩
    | some v =>
      rw [hinit] at h
      obtain ⟨l, hread, hlog⟩ := exists_of_bind_eq_ok h
      cases hlog
      exact .inr ⟨v, ty, l, hinit, rfl, hread, rfl⟩
  | assign b =>
    simp only [act, Machine.assign] at h
    cases hfound : m.store.find? b.name with
    | none =>
      rw [hfound] at h
      cases h
    | some cell =>
      rw [hfound] at h
      obtain ⟨l, hread, hlog⟩ := exists_of_bind_eq_ok h
      cases hlog
      exact .inr ⟨b.value, cell.ty, l, rfl, by rw [Action.wanted?, hfound]; rfl, hread, rfl⟩
  | supply ty v =>
    obtain ⟨l, hread, hlog⟩ := exists_of_bind_eq_ok h
    cases hlog
    exact .inr ⟨v, ty, l, rfl, rfl, hread, rfl⟩
  | fail e => cases h

/-- Nothing is taken out of the log. -/
theorem arrivals_suffix_foldlM {as : List Action} (h : as.foldlM act m = .ok m') : m.arrivals <:+ m'.arrivals := by
  induction as generalizing m with
  | nil =>
    cases h
    exact List.suffix_refl _
  | cons a as ih =>
    rw [List.foldlM_cons] at h
    obtain ⟨m₁, ha, hrest⟩ := exists_of_bind_eq_ok h
    refine List.IsSuffix.trans ?_ (ih hrest)
    rcases arrivals_act ha with ⟨-, hlog⟩ | ⟨_, _, _, _, _, _, hlog⟩
    · exact hlog ▸ List.suffix_refl m.arrivals
    · exact hlog ▸ List.suffix_cons _ m.arrivals

end Machine

/-- Every store, pass and test is logged: where a run comes to a value, it reads a literal, and the literal is in the
log, in front of what was there before, with the type that was wanted then. -/
theorem Program.exists_arrival {p : Program} {f : Function} {args : List Literal} {m : Machine}
    {before after : List Action} {a : Action} {v : Value} (hrun : p.run f args = .ok m)
    (hplace : p.actions f args = before ++ a :: after) (hvalue : a.value? = some v) :
    ∃ m₁ ty l, before.foldlM Machine.act Machine.start = .ok m₁ ∧ a.wanted? m₁ = some ty ∧ m₁.read v = .ok l ∧
      ⟨l, ty⟩ :: m₁.arrivals <:+ m.arrivals := by
  rw [run_eq_foldlM, hplace, List.foldlM_append] at hrun
  obtain ⟨m₁, hbefore, hrest⟩ := Machine.exists_of_bind_eq_ok hrun
  rw [List.foldlM_cons] at hrest
  obtain ⟨m₂, ha, hafter⟩ := Machine.exists_of_bind_eq_ok hrest
  rcases Machine.arrivals_act ha with ⟨hnone, -⟩ | ⟨v', ty, l, hv', hty, hread, hlog⟩
  · rw [hvalue] at hnone
    cases hnone
  · obtain rfl := Option.some.inj (hvalue.symm.trans hv')
    exact ⟨m₁, ty, l, hbefore, hty, hread, hlog ▸ Machine.arrivals_suffix_foldlM hafter⟩

/-! ### The invariant -/

/-- The variable in memory is as the rules think: its type, whether it holds anything; and what it holds fits. -/
structure Holds (st : Standing) (cell : Cell) : Prop where
  ty : cell.ty = st.ty
  fits : ∀ l, cell.value = some l → l.fits cell.ty = true
  assigned : st.isAssigned = true → ∃ l, cell.value = some l

/-- The store holds what the environment says, and what has arrived has fitted. -/
structure Machine.Sound (env : Env) (m : Machine) : Prop where
  cells : Layers.Rel Holds env m.store
  arrivals : ∀ a ∈ m.arrivals, a.literal.fits a.ty = true

namespace Machine

variable {env env' : Env} {m : Machine} {ty : Ty}

theorem sound_start : start.Sound Layers.empty :=
  ⟨Layers.rel_empty, fun _ ha => absurd ha List.not_mem_nil⟩

theorem Sound.mem_cons (h : m.Sound env) {l : Literal} (hl : l.fits ty = true) :
    ∀ a ∈ Arrival.mk l ty :: m.arrivals, a.literal.fits a.ty = true := by
  intro a ha
  rcases List.mem_cons.mp ha with rfl | ha
  · exact hl
  · exact h.arrivals a ha

/-- A value that fits is read without a fault, and so is what it stands for: the type of a variable only widens. -/
theorem Sound.read (h : m.Sound env) {v : Value} (hv : v.Fits ty env) : ∃ l, m.read v = .ok l ∧ l.fits ty = true := by
  cases v with
  | literal l => exact ⟨l, rfl, hv⟩
  | name n =>
    obtain ⟨st, hst, hassigned, haccepts⟩ := hv
    obtain ⟨cell, hcell, hholds⟩ := h.cells.exists_find? hst
    obtain ⟨l, hl⟩ := hholds.assigned hassigned
    refine ⟨l, by simp only [Machine.read, hcell, hl], ?_⟩
    exact Literal.fits_of_accepts (hholds.ty ▸ hholds.fits l hl) haccepts

theorem Sound.supply (h : m.Sound env) {v : Value} (hv : v.Fits ty env) :
    ∃ m', m.supply ty v = .ok m' ∧ m'.Sound env := by
  obtain ⟨l, hread, hl⟩ := h.read hv
  refine ⟨{ m with arrivals := ⟨l, ty⟩ :: m.arrivals }, ?_, h.cells, h.mem_cons hl⟩
  rw [Machine.supply, hread]
  rfl

theorem Sound.declare (h : m.Sound env) {d : Declarator} (isFinal : Bool)
    (hfits : ∀ v, d.init = some v → v.Fits ty env) :
    ∃ m', m.declare ty d = .ok m' ∧ m'.Sound (env.add d.name ⟨ty, isFinal, d.init.isSome⟩) := by
  unfold Machine.declare
  cases hinit : d.init with
  | none =>
    refine ⟨{ m with store := m.store.add d.name ⟨ty, none⟩ }, rfl, h.cells.add ⟨rfl, ?_, ?_⟩ d.name, h.arrivals⟩
    · intro l hl
      cases hl
    · intro hassigned
      cases hassigned
  | some v =>
    obtain ⟨l, hread, hl⟩ := h.read (hfits v hinit)
    have hcell : Holds ⟨ty, isFinal, true⟩ ⟨ty, some l⟩ :=
      ⟨rfl, fun l' hl' => Option.some.inj hl' ▸ hl, fun _ => ⟨l, rfl⟩⟩
    refine ⟨⟨m.store.add d.name ⟨ty, some l⟩, ⟨l, ty⟩ :: m.arrivals⟩, ?_, h.cells.add hcell d.name, h.mem_cons hl⟩
    simp only [hread]
    rfl

theorem Sound.assign (h : m.Sound env) {a : Assignment} {st : Standing} (htarget : env.find? a.name = some st)
    (hfits : a.value.Fits st.ty env) :
    ∃ m', m.assign a = .ok m' ∧ m'.Sound (env.modify a.name Standing.assign) := by
  obtain ⟨cell, hcell, hholds⟩ := h.cells.exists_find? htarget
  obtain ⟨l, hread, hl⟩ := h.read hfits
  rw [← hholds.ty] at hl
  have hcells : Layers.Rel Holds (env.modify a.name Standing.assign) (m.store.modify a.name (Cell.put l)) := by
    refine h.cells.modify fun st' cell' _ hcell' hholds' => ?_
    obtain rfl := Option.some.inj (hcell.symm.trans hcell')
    exact ⟨hholds'.ty, fun l' hl' => Option.some.inj hl' ▸ hl, fun _ => ⟨l, rfl⟩⟩
  refine ⟨⟨m.store.modify a.name (Cell.put l), ⟨l, cell.ty⟩ :: m.arrivals⟩, ?_, hcells, h.mem_cons hl⟩
  unfold Machine.assign
  simp only [hcell, hread]
  rfl

theorem Sound.bind (h : m.Sound env) {params : List Param} {args : List Literal}
    (hargs : List.Forall₂ (fun (p : Param) (l : Literal) => l.fits p.ty = true) params args) :
    (m.bind params args).Sound (Env.withParams env params) := by
  induction hargs generalizing env m with
  | nil => exact h
  | @cons p l params args hl _ ih =>
    have hcell : Holds ⟨p.ty, p.isFinal, true⟩ ⟨p.ty, some l⟩ :=
      ⟨rfl, fun l' hl' => Option.some.inj hl' ▸ hl, fun _ => ⟨l, rfl⟩⟩
    exact ih (m := { m with store := m.store.add p.name ⟨p.ty, some l⟩ }) ⟨h.cells.add hcell p.name, h.arrivals⟩

/-! ### Lines and bodies -/

theorem Sound.supplyAll (h : m.Sound env) {args : List (Ty × Value)} (hargs : ∀ arg ∈ args, arg.2.Fits arg.1 env) :
    ∃ m', m.supplyAll args = .ok m' ∧ m'.Sound env := by
  unfold Machine.supplyAll
  induction args generalizing m with
  | nil => exact ⟨m, rfl, h⟩
  | cons arg args ih =>
    obtain ⟨m₁, hsupply, h₁⟩ := h.supply (hargs arg List.mem_cons_self)
    obtain ⟨m', hmore, h'⟩ := ih h₁ fun other hother => hargs other (List.mem_cons_of_mem arg hother)
    refine ⟨m', ?_, h'⟩
    rw [List.foldlM_cons, hsupply]
    exact hmore

theorem fits_of_mem_zip {params : List Param} {args : List Value}
    (hargs : List.Forall₂ (fun (a : Value) (p : Param) => a.Fits p.ty env) args params) :
    ∀ arg ∈ (params.map Param.ty).zip args, arg.2.Fits arg.1 env := by
  induction hargs with
  | nil => exact fun arg harg => absurd harg List.not_mem_nil
  | cons ha _ ih =>
    intro arg harg
    rcases List.mem_cons.mp harg with rfl | harg
    · exact ha
    · exact ih arg harg

theorem find?_header {headers : List Header} {h : Header} (hnames : (headers.map Header.name).Nodup)
    (hmem : h ∈ headers) : headers.find? (·.name == h.name) = some h := by
  obtain ⟨before, after, rfl⟩ := List.append_of_mem hmem
  refine List.find?_eq_some_iff_append.mpr ⟨by simp, before, after, rfl, fun h' hh' => ?_⟩
  rw [List.map_append, List.map_cons] at hnames
  have hne : h'.name ≠ h.name :=
    (List.nodup_append.mp hnames).2.2 _ (List.mem_map_of_mem hh') _ List.mem_cons_self
  simpa using hne

theorem Sound.call (h : m.Sound env) {headers : List Header} {c : Call} (hnames : (headers.map Header.name).Nodup)
    (hlegal : c.Legal headers env) : ∃ m', m.call headers c = .ok m' ∧ m'.Sound env := by
  obtain ⟨hd, hmem, hname, hargs⟩ := hlegal
  obtain ⟨m', hsupply, h'⟩ := h.supplyAll (fits_of_mem_zip hargs)
  have hfound := find?_header hnames hmem
  rw [hname] at hfound
  refine ⟨m', ?_, h'⟩
  unfold Machine.call
  simp only [hfound]
  rw [if_pos hargs.length_eq.symm]
  exact hsupply

theorem Sound.test (h : m.Sound env) {c : Condition} (hlegal : c.Legal env) :
    ∃ m', m.test c = .ok m' ∧ m'.Sound env := by
  refine h.supplyAll fun arg harg => ?_
  obtain ⟨v, hv, rfl⟩ := List.mem_map.mp harg
  exact hlegal v hv

theorem Sound.declareAll {isFinal : Bool} {ds : List Declarator} (h : m.Sound env)
    (hlegal : Declares isFinal ty env ds env') :
    ∃ m', ds.foldlM (Machine.declare ty) m = .ok m' ∧ m'.Sound env' := by
  induction hlegal generalizing m with
  | nil => exact ⟨m, rfl, h⟩
  | cons fits _ _ ih =>
    obtain ⟨m₁, hfirst, h₁⟩ := h.declare isFinal fits
    obtain ⟨m', hmore, h'⟩ := ih h₁
    refine ⟨m', ?_, h'⟩
    rw [List.foldlM_cons, hfirst]
    exact hmore

theorem Sound.assignAll {as : List Assignment} (h : m.Sound env) (hlegal : Assigns env as env') :
    ∃ m', as.foldlM Machine.assign m = .ok m' ∧ m'.Sound env' := by
  induction hlegal generalizing m with
  | nil => exact ⟨m, rfl, h⟩
  | cons target _ fits _ ih =>
    obtain ⟨m₁, hfirst, h₁⟩ := h.assign target fits
    obtain ⟨m', hmore, h'⟩ := ih h₁
    refine ⟨m', ?_, h'⟩
    rw [List.foldlM_cons, hfirst]
    exact hmore

theorem Sound.runLine (h : m.Sound env) {line : PlainLine} (hlegal : line.Legal env env') :
    ∃ m', m.runLine line = .ok m' ∧ m'.Sound env' := by
  cases hlegal with
  | blank => exact ⟨m, rfl, h⟩
  | comment => exact ⟨m, rfl, h⟩
  | declaration declares => exact h.declareAll declares
  | assignment assigns => exact h.assignAll assigns

/-- The lines of a legal body are run to the end, and lead to what the rules say. -/
theorem Sound.runBody {headers : List Header} {body : Body} (hnames : (headers.map Header.name).Nodup)
    (hlegal : body.Legal headers env env') (h : m.Sound env) :
    ∃ m', m.runBody headers body = .ok m' ∧ m'.Sound env' := by
  induction hlegal generalizing m with
  | nil => exact ⟨m, rfl, h⟩
  | plain first _ ih =>
    obtain ⟨m₁, hfirst, h₁⟩ := h.runLine first
    obtain ⟨m', hmore, h'⟩ := ih h₁
    exact ⟨m', by rw [Machine.runBody, hfirst]; exact hmore, h'⟩
  | call first _ ih =>
    obtain ⟨m₁, hfirst, h₁⟩ := h.call hnames first
    obtain ⟨m', hmore, h'⟩ := ih h₁
    exact ⟨m', by rw [Machine.runBody, hfirst]; exact hmore, h'⟩
  | «return» _ ih => exact ih h
  | guard first _ _ ihinner ihrest =>
    obtain ⟨m₁, hfirst, h₁⟩ := h.test first
    obtain ⟨m₂, hinner, h₂⟩ := ihinner (m := { m₁ with store := m₁.store.openScope }) ⟨h₁.cells.openScope, h₁.arrivals⟩
    obtain ⟨m', hrest, h'⟩ := ihrest (m := { m₂ with store := m₂.store.closeScope }) ⟨h₂.cells.closeScope, h₂.arrivals⟩
    refine ⟨m', ?_, h'⟩
    rw [Machine.runBody, hfirst]
    dsimp only [Bind.bind, Except.bind]
    rw [hinner]
    exact hrest

theorem Sound.runGlobals {items : List Item} (h : m.Sound env) (hlegal : Globals env items env') :
    ∃ m', m.runGlobals items = .ok m' ∧ m'.Sound env' := by
  induction hlegal generalizing m with
  | nil => exact ⟨m, rfl, h⟩
  | plain first _ ih =>
    obtain ⟨m₁, hfirst, h₁⟩ := h.runLine first
    obtain ⟨m', hmore, h'⟩ := ih h₁
    exact ⟨m', by rw [Machine.runGlobals, hfirst]; exact hmore, h'⟩
  | function _ ih => exact ih h

end Machine

/-- In an accepted program each function, started behind the lines outside functions with arguments that fit its
parameters, runs to its end: nothing that is read is missing or holds nothing.  Every literal that is stored in a
variable, passed to a parameter or tested in a condition is one that might have been written there. -/
theorem arrivals_fit {source : Source} (haccepted : source.verdict = .ok ()) :
    (∃ p : Program, p.IsReadFrom source) ∧
      ∀ (p : Program) (f : Function) (args : List Literal), p.IsReadFrom source → f ∈ p.functions →
        List.Forall₂ (fun (q : Param) (l : Literal) => l.fits q.ty = true) f.header.params args →
          ∃ m, p.run f args = .ok m ∧ ∀ a ∈ m.arrivals, a.literal.fits a.ty = true := by
  refine ⟨exists_isReadFrom haccepted, fun p f args hread hf hargs => ?_⟩
  obtain ⟨hnames, globals, hglobals, hfunctions⟩ := (verdict_eq_ok_iff_legal hread).mp haccepted
  obtain ⟨-, -, env, hbody⟩ := hfunctions f hf
  obtain ⟨m₁, hrun₁, h₁⟩ := Machine.sound_start.runGlobals hglobals
  have hopen : { m₁ with store := m₁.store.openScope }.Sound globals.openScope := ⟨h₁.cells.openScope, h₁.arrivals⟩
  obtain ⟨m, hrun, h⟩ := Machine.Sound.runBody hnames hbody (hopen.bind hargs)
  refine ⟨m, ?_, h.arrivals⟩
  rw [Program.run, hrun₁]
  exact hrun

/-- A number that comes to a truth value through two other variables. -/
def copyChain : Source :=
  ⟨"copies", "int a = 1;\ndouble b = a;\nvoid f(int x) \x7b\n  boolean c = b;\n  c = x;\n  return;\n\x7d\n"⟩

/-- Its function. -/
def copies : Function where
  header := ⟨"f", [⟨"x", .int, false⟩]⟩
  body :=
    .plain (.declaration ⟨false, .boolean, [⟨"c", some (.name "b")⟩]⟩) <|
    .plain (.assignment [⟨"c", .name "x"⟩]) <|
    .return .nil

/-- It as a tree. -/
def copyProgram : Program where
  items := [
    .plain (.declaration ⟨false, .int, [⟨"a", some (.literal (.int "1"))⟩]⟩),
    .plain (.declaration ⟨false, .double, [⟨"b", some (.name "a")⟩]⟩),
    .function copies]

theorem arrivals_fit_copies :
    copyChain.verdict = .ok () ∧ copyProgram.IsReadFrom copyChain ∧
      ∃ m, copyProgram.run copies [.int "7"] = .ok m ∧ (∀ a ∈ m.arrivals, a.literal.fits a.ty = true) ∧
        m.arrivals = [⟨.int "7", .boolean⟩, ⟨.int "1", .boolean⟩, ⟨.int "1", .double⟩, ⟨.int "1", .int⟩] := by
  have haccepted : copyChain.verdict = .ok () := by decide +kernel
  have hread : copyProgram.IsReadFrom copyChain := by decide +kernel
  have hlog : (copyProgram.run copies [.int "7"]).map Machine.arrivals =
      .ok [⟨.int "7", .boolean⟩, ⟨.int "1", .boolean⟩, ⟨.int "1", .double⟩, ⟨.int "1", .int⟩] := by
    decide +kernel
  have hmem : copies ∈ copyProgram.functions := List.mem_cons_self
  obtain ⟨m, hrun, hfits⟩ :=
    (arrivals_fit haccepted).2 copyProgram copies [.int "7"] hread hmem (.cons rfl .nil)
  rw [hrun] at hlog
  exact ⟨haccepted, hread, m, hrun, hfits, Except.ok.inj hlog⟩

end LineCheck
