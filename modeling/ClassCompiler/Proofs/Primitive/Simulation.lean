import ClassCompiler.Proofs.Primitive.Shape

/-!
# Expressions on the machine

The code of an expression of the primitive fragment, run on the reference
machine in a frame whose slots hold the variables, does what the source
semantics does: it pushes the value, of the type the compiler gave the
expression, and keeps the slots holding the variables; or it stops as the
source stops.

* `Mirror L vars env`: the slots `L` hold the values `env` of the variables
  `vars` of the scope, name by name;
* `At f s env`: the frame has reached the point of its body's code where
  generation was in state `s`;
* `Stopped n m fs e`: the machine stops as the source does with `e`: a
  division by zero is an `ArithmeticException`, running out of levels is
  running out of steps within `n` steps, and the source never goes wrong;
* `CallsOk`: calls at a level run as the machine runs the static calls the
  compiler emits for them;
* `expr_sim`: the simulation of every expression of the fragment.
-/

namespace ClassCompiler.Primitive

open Syntax Machine Gen

/-! ### Variables in slots -/

/-- The slots `L` hold the values `env` of the variables `vars`, in the same
    order and under the same names, each in the type the compiler gave it. -/
def Mirror (L : Array Value) : List LocalVar → Env → Prop
  | [], [] => True
  | v :: vars, (x, a) :: env =>
    v.name = x ∧ v.ty = a.ty.ty ∧ L[v.slot]? = some a.toValue ∧ Mirror L vars env
  | _, _ => False

namespace Mirror

variable {L : Array Value}

theorem length_eq : ∀ {vars : List LocalVar} {env : Env}, Mirror L vars env → vars.length = env.length
  | [], [], _ => rfl
  | _ :: _, _ :: _, h => congrArg (· + 1) (length_eq h.2.2.2)

/-- The first variable of a name holds the value the environment gives it. -/
theorem lookup : ∀ {vars : List LocalVar} {env : Env} {x : String} {v : LocalVar},
    Mirror L vars env → vars.find? (·.name == x) = some v →
      ∃ a, env.lookup x = some a ∧ v.ty = a.ty.ty ∧ L[v.slot]? = some a.toValue
  | [], [], _, _, _, hv => by simp at hv
  | w :: vars, (y, b) :: env, x, v, ⟨hname, hty, hslot, hrest⟩, hv => by
    by_cases hx : w.name = x
    · rw [List.find?_cons_of_pos (by simpa using hx)] at hv
      cases hv
      refine ⟨b, ?_, hty, hslot⟩
      show (match x == y with | true => some b | false => env.lookup x) = some b
      simp [← hname, hx]
    · rw [List.find?_cons_of_neg (by simpa using hx)] at hv
      obtain ⟨a, ha, hrest'⟩ := lookup hrest hv
      refine ⟨a, ?_, hrest'⟩
      have hyx : (x == y) = false := by simpa [← hname] using fun h => hx h.symm
      show (match x == y with | true => some b | false => env.lookup x) = some a
      simp [hyx, ha]

/-- Writing a slot no variable of the list uses keeps the list mirrored. -/
theorem set_other : ∀ {vars : List LocalVar} {env : Env} {i : Nat} {w : Value},
    Mirror L vars env → (∀ v ∈ vars, v.slot ≠ i) → Mirror (L.set! i w) vars env
  | [], [], _, _, _, _ => trivial
  | v :: vars, (x, a) :: env, i, w, ⟨hname, hty, hslot, hrest⟩, hne => by
    refine ⟨hname, hty, ?_, set_other hrest fun u hu => hne u (List.mem_cons_of_mem _ hu)⟩
    rw [Array.set!_eq_setIfInBounds, Array.getElem?_setIfInBounds,
      if_neg (Ne.symm (hne v List.mem_cons_self)), hslot]

/-- An assignment writes the slot of the first variable of its name. -/
theorem set : ∀ {vars : List LocalVar} {env : Env} {x : String} {v : LocalVar} {a : PVal},
    Mirror L vars env → vars.Pairwise (fun u w => w.slot < u.slot) →
    vars.find? (·.name == x) = some v → a.ty.ty = v.ty →
      Mirror (L.set! v.slot a.toValue) vars (env.set x a)
  | [], [], _, _, _, _, _, hv, _ => by simp at hv
  | w :: vars, (y, b) :: env, x, v, a, ⟨hname, hty, hslot, hrest⟩, hslots, hv, ha => by
    rw [List.pairwise_cons] at hslots
    by_cases hx : w.name = x
    · rw [List.find?_cons_of_pos (by simpa using hx)] at hv
      cases hv
      have hyx : y = x := hname ▸ hx
      simp only [Env.set, hyx, if_true]
      refine ⟨hx, ha.symm, ?_, set_other hrest fun u hu => Nat.ne_of_lt (hslots.1 u hu)⟩
      rw [Array.set!_eq_setIfInBounds, Array.getElem?_setIfInBounds, if_pos rfl,
        if_pos (Array.getElem?_eq_some_iff.1 hslot).1]
    · rw [List.find?_cons_of_neg (by simpa using hx)] at hv
      have hyx : ¬ y = x := hname ▸ hx
      simp only [Env.set, hyx, if_false]
      have hvmem : v ∈ vars := List.mem_of_find?_eq_some hv
      refine ⟨hname, hty, ?_, set hrest hslots.2 hv ha⟩
      rw [Array.set!_eq_setIfInBounds, Array.getElem?_setIfInBounds,
        if_neg (Nat.ne_of_lt (hslots.1 v hvmem)), hslot]

end Mirror

/-! ### Scopes -/

/-- A frame runs the code of a body and has reached the point where generation
    was in state `s`; the slots hold the variables, with room for all slots
    taken so far. -/
structure At (f : Frame) (s : GenState) (env : Env) : Prop where
  pc : f.pc = s.emitter.code.size
  mirror : Mirror f.locals s.scope.vars env
  scope : ScopeOk s.scope
  room : s.scope.next ≤ f.locals.size

/-! ### How the machine answers -/

/-- The stack with a result pushed, if there is one. -/
def pushOpt : Option PVal → List Value → List Value
  | some a, st => Stack.push a.toValue st
  | none, st => st

/-- A result has the compiler's type; no result is `void`. -/
def HasTy : Option PVal → Ty → Prop
  | some a, t => a.ty.ty = t
  | none, t => t = .void

/-- The machine stops as the source does: a division by zero is an
    `ArithmeticException`, running out of levels is running out of every
    budget below `n` steps, and the source never goes wrong. -/
def Stopped (n : Nat) (m : State) (fs : List Frame) : Stop → Prop
  | .divByZero => ∃ k, Fails m fs k "ArithmeticException: / by zero"
  | .outOfFuel => ∀ fuel < n, Exceeds fuel m fs
  | .wrong => False

theorem Stopped.of_moves {n k : Nat} {m : State} {fs fs' : List Frame} {e : Stop}
    (h : Moves m fs k m fs') (hs : Stopped n m fs' e) : Stopped n m fs e := by
  cases e with
  | divByZero =>
    obtain ⟨j, hj⟩ := hs
    exact ⟨k + j, h.fails hj⟩
  | outOfFuel =>
    intro fuel hfuel
    exact h.exceeds_add (j := n) hs fuel (by omega)
  | wrong => exact hs

theorem HasTy.some {v : Option PVal} {t : Ty} (h : HasTy v t) (ht : t ≠ .void) :
    ∃ a, v = some a ∧ a.ty.ty = t := by
  cases v with
  | none => exact absurd h ht
  | some a => exact ⟨a, rfl, h⟩

@[simp] theorem needValue_some_bind {β : Type} (a : PVal) (g : PVal → Res β) :
    (needValue (some a) >>= g) = g a :=
  rfl

theorem PVal.toValue_ne_top (a : PVal) : a.toValue ≠ .top := by
  cases a <;> simp [PVal.toValue]

section Answers

variable {n : Nat} {m : State} {f : Frame} {cs : List Frame} {s s' : GenState} {t : Ty} {env : Env}

/-- The frame moved on to the end of the code generated up to `s'`, with the
    slots and the scope as they were. -/
theorem At.goto (h : At f s env) (hsc : s'.scope = s.scope) (st : List Value) :
    At { f with pc := s'.emitter.code.size, stack := st } s' env where
  pc := rfl
  mirror := hsc ▸ h.mirror
  scope := hsc ▸ h.scope
  room := hsc ▸ h.room

/-- The machine runs code as the source evaluates it: the result `a`, with
    the property `P` the compiler's types give it, is pushed by `push`, and the
    slots hold the variables after it; or the machine stops as the source does. -/
def Answer {α : Type} (P : α → Prop) (push : α → List Value → List Value) (n : Nat) (m : State)
    (f : Frame) (cs : List Frame) (s' : GenState) : Res (α × Env) → Prop
  | .ok (a, env') => P a ∧ ∃ k L, L.size = f.locals.size ∧ Moves m (f :: cs) k m
      ({ f with pc := s'.emitter.code.size, stack := push a f.stack, locals := L } :: cs) ∧
      At { f with pc := s'.emitter.code.size, stack := push a f.stack, locals := L } s' env'
  | .error e => Stopped n m (f :: cs) e

/-- An expression's answer: its value, if any, of the compiler's type `t`. -/
abbrev ExprAnswer (n : Nat) (m : State) (f : Frame) (cs : List Frame) (s' : GenState) (t : Ty) :=
  Answer (fun v => HasTy v t) pushOpt n m f cs s'

/-- After a sub-computation, the source stops where it stops, and goes on from
    its result where it has one. -/
theorem Answer.bind {α β : Type} {P : α → Prop} {push : α → List Value → List Value} {s₁ : GenState}
    {r : Res (α × Env)} {g : α × Env → Res β} {Q : Res β → Prop}
    (h : Answer P push n m f cs s₁ r)
    (hstop : ∀ e, Stopped n m (f :: cs) e → Q (.error e))
    (hok : ∀ a env₁ k L, P a → L.size = f.locals.size →
      Moves m (f :: cs) k m ({ f with pc := s₁.emitter.code.size, stack := push a f.stack, locals := L } :: cs) →
      At { f with pc := s₁.emitter.code.size, stack := push a f.stack, locals := L } s₁ env₁ →
      Q (g (a, env₁))) :
    Q (r >>= g) := by
  cases r with
  | error e => exact hstop e h
  | ok p =>
    obtain ⟨a, env₁⟩ := p
    obtain ⟨hP, k, L, hL, hmv, hat⟩ := h
    exact hok a env₁ k L hP hL hmv hat

/-- An expression whose code is one entry that pushes its value. -/
theorem ExprAnswer.of_push {i : Instruction} {a : PVal} (hat : At f s env)
    (hpre : (s.emitter.push i).code.toList <+: f.code.instructions.toList)
    (hexec : exec m { f with pc := f.pc + 1 } i = .ok (.next m ({ f with pc := f.pc + 1 }.push a.toValue)))
    (ht : a.ty.ty = t) :
    ExprAnswer n m f cs { s with emitter := s.emitter.push i } t (.ok (some a, env)) := by
  have hcode : CodeAt f.code.instructions.toList f.pc [i] :=
    hat.pc ▸ CodeAt.of_append (by simpa using hpre)
  refine ⟨ht, 1, f.locals, rfl, ?_, hat.goto (by rfl) _⟩
  have hmv : Moves m (f :: cs) 1 m ({ f with pc := f.pc + 1 }.push a.toValue :: cs) :=
    Moves.of_exec (by simpa using hcode.getElem?) hexec
  simp only [Emitter.push_code, Array.size_push, ← hat.pc]
  exact hmv

/-- An expression whose code ends with operand-free instructions that agree
    with the source's operation on the values below them. -/
theorem ExprAnswer.of_agrees {s₁ : GenState} {k : Nat} {L : Array Value} {st : List Value}
    {ops : List Opcode} {r : Res PVal} {env' : Env} (hL : L.size = f.locals.size)
    (hmv : Moves m (f :: cs) k m ({ f with pc := s₁.emitter.code.size, stack := st, locals := L } :: cs))
    (hat : At { f with pc := s₁.emitter.code.size, stack := st, locals := L } s₁ env')
    (hag : Agrees m f.stack t r (runSimple m ops st))
    (hs' : s' = { s₁ with emitter := ops.foldl Emitter.emit s₁.emitter })
    (hpre : s'.emitter.code.toList <+: f.code.instructions.toList) :
    ExprAnswer n m f cs s' t (r >>= fun w => pure (some w, env')) := by
  subst hs'
  have hcode : CodeAt f.code.instructions.toList s₁.emitter.code.size (ops.map .simple) :=
    CodeAt.of_append (by simpa [Emitter.foldl_emit] using hpre)
  cases r with
  | ok w =>
    obtain ⟨hty, hrun⟩ := hag
    have hmv₂ : Moves m ({ f with pc := s₁.emitter.code.size, stack := st, locals := L } :: cs) ops.length m
        ({ f with pc := s₁.emitter.code.size + ops.length, stack := Stack.push w.toValue f.stack, locals := L } :: cs) :=
      Moves.simples (f := { f with pc := s₁.emitter.code.size, stack := st, locals := L }) hcode hrun
    refine ⟨hty, k + ops.length, L, hL, ?_, hat.goto (by rfl) _⟩
    simpa [Emitter.foldl_emit, pushOpt] using hmv.trans hmv₂
  | error e =>
    cases e with
    | divByZero =>
      obtain ⟨j, hj⟩ : ∃ j, Fails m ({ f with pc := s₁.emitter.code.size, stack := st, locals := L } :: cs) j
          "ArithmeticException: / by zero" :=
        Fails.simples (f := { f with pc := s₁.emitter.code.size, stack := st, locals := L }) hcode hag
      exact ⟨k + j, hmv.fails hj⟩
    | outOfFuel => exact hag.elim
    | wrong => exact hag.elim

/-- A comparison's code: after the operands, the instructions before the
    jump, then the jump decides which of 1 and 0 is pushed. -/
theorem ExprAnswer.of_compare {s₂ : GenState} {k : Nat} {L : Array Value} {st st' : List Value}
    {pre : List Opcode} {jump : Opcode} {b : Bool} {env' : Env} (hL : L.size = f.locals.size)
    (hmv : Moves m (f :: cs) k m ({ f with pc := s₂.emitter.code.size, stack := st, locals := L } :: cs))
    (hat : At { f with pc := s₂.emitter.code.size, stack := st, locals := L } s₂ env')
    (hrun : runSimple m pre st = .ok (m, st')) (hb : branch jump st' = .ok (b, f.stack))
    (hlab : LabelsOnce f.code)
    (hpre : (compareCode s₂.emitter pre jump).code.toList <+: f.code.instructions.toList) :
    ExprAnswer n m f cs { s₂ with emitter := compareCode s₂.emitter pre jump } .bool
      (.ok (some (.bool b), env')) := by
  have hsize : (compareCode s₂.emitter pre jump).code.size = s₂.emitter.code.size + pre.length + 6 := by
    have := congrArg List.length (compareCode_code s₂.emitter pre jump)
    simpa [Nat.add_assoc] using this
  rw [compareCode_code, List.append_assoc] at hpre
  have hcode := CodeAt.of_append hpre
  have hm₁ : Moves m ({ f with pc := s₂.emitter.code.size, stack := st, locals := L } :: cs) pre.length m
      ({ f with pc := s₂.emitter.code.size + pre.length, stack := st', locals := L } :: cs) :=
    Moves.simples hcode.app_left hrun
  have hm₂ : Moves m ({ f with pc := s₂.emitter.code.size + pre.length, stack := st', locals := L } :: cs) 4 m
      ({ f with
          pc := s₂.emitter.code.size + pre.length + 6
          stack := .int (if b then 1 else 0) :: f.stack
          locals := L } :: cs) :=
    Moves.select (by simpa using hcode.app_right) hlab hb
  refine ⟨rfl, k + (pre.length + 4), L, hL, ?_, hat.goto (by rfl) _⟩
  rw [hsize]
  exact hmv.trans (hm₁.trans hm₂)

end Answers

/-! ### Calls -/

/-- The stack with the arguments of a call pushed, the last on top. -/
def pushArgs (vals : List PVal) (st : List Value) : List Value :=
  vals.foldl (fun st a => Stack.push a.toValue st) st

/-- The answer of arguments: their values, of the compiler's types `ts`. -/
abbrev ArgsAnswer (n : Nat) (m : State) (f : Frame) (cs : List Frame) (s' : GenState) (ts : List Ty) :=
  Answer (fun vals : List PVal => vals.map (fun a => a.ty.ty) = ts) pushArgs n m f cs s'

/-- The machine runs a call as the source does: from the frame at the call,
    the result, of the return type, replaces the arguments and the frame goes
    on after the call; or the machine stops as the source does. -/
def CallAnswer (n : Nat) (m : State) (f : Frame) (cs : List Frame) (st : List Value) (ret : Ty) :
    Res (Option PVal) → Prop
  | .ok v => HasTy v ret ∧ ∃ k, Moves m (f :: cs) k m ({ f with pc := f.pc + 1, stack := pushOpt v st } :: cs)
  | .error e => Stopped n m (f :: cs) e

/-- Calls at a level run as the static calls the compiler emits for them: at
    the call of the method found for the types of the arguments, the machine
    answers what the level answers. -/
def CallsOk (tbl : ClassTable) (owner : String) (n : Nat) (m : State) (lv : Level) : Prop :=
  ∀ {name : String} {vals : List PVal} {d : TypeDecl} {sig : MethodSig} {f : Frame}
    {cs : List Frame} {st : List Value},
    findCallable? tbl owner name (vals.map fun a => a.ty.ty) false = some (d, sig) →
    f.code.instructions[f.pc]? = some (invokeInstruction d sig) → f.stack = pushArgs vals st →
    CallAnswer n m f cs st sig.ret (lv.call name vals)

/-! ### Expressions -/

/-- The simulation of an expression at a level: run from the point of a body
    where its code was generated, with the slots holding the variables, the
    machine answers as the source evaluates. -/
def ExprSim (c : MethodContext) (n : Nat) (m : State) (lv : Level) (vars : List String) (e : Expr) :
    Prop :=
  ∀ {f : Frame} {cs : List Frame} {s s' : GenState} {t : Ty} {env : Env},
    At f s env → (∀ x ∈ vars, (s.scope.lookup? x).isSome) → LabelsOnce f.code →
    s'.emitter.code.toList <+: f.code.instructions.toList → expr e c s = .ok (t, s') → ExprAnswer n m f cs s' t (evalExpr lv env e)

/-- The simulation of the arguments of a call. -/
def ArgsSim (c : MethodContext) (n : Nat) (m : State) (lv : Level) (vars : List String)
    (args : List Expr) : Prop :=
  ∀ {f : Frame} {cs : List Frame} {s s' : GenState} {ts : List Ty} {env : Env},
    At f s env → (∀ x ∈ vars, (s.scope.lookup? x).isSome) → LabelsOnce f.code →
    s'.emitter.code.toList <+: f.code.instructions.toList → arguments args c s = .ok (ts, s') → ArgsAnswer n m f cs s' ts (evalArgs lv env args)

theorem Ty.eq_of_accepts {t : Ty} {a : PVal} (h : t.accepts a.ty.ty = true) : t = a.ty.ty := by
  cases a <;> simpa [Ty.accepts, Ty.isNull, PVal.ty, PTy.ty] using h

section Expr

variable {c : MethodContext} {n : Nat} {m : State} {lv : Level} {vars : List String}

theorem sim_int {v : Int32} {sp : Span} : ExprSim c n m lv vars (.lit (.int v) sp) := by
  intro f cs s s' t env hat _ _ hpre h
  obtain ⟨rfl, rfl⟩ := literal_int_ok.1 (expr_lit ▸ h)
  exact ExprAnswer.of_push (a := .int v) hat hpre (exec_intConst v) rfl

theorem sim_long {v : Int64} {sp : Span} : ExprSim c n m lv vars (.lit (.long v) sp) := by
  intro f cs s s' t env hat _ _ hpre h
  obtain ⟨rfl, rfl⟩ := literal_long_ok.1 (expr_lit ▸ h)
  exact ExprAnswer.of_push (a := .long v) hat hpre (exec_longConst v) rfl

theorem sim_bool {b : Bool} {sp : Span} : ExprSim c n m lv vars (.lit (.bool b) sp) := by
  intro f cs s s' t env hat _ _ hpre h
  obtain ⟨rfl, rfl⟩ := literal_bool_ok.1 (expr_lit ▸ h)
  exact ExprAnswer.of_push (a := .bool b) hat hpre (by cases b <;> rfl) rfl

theorem sim_ident {id : Ident} (hx : id.name ∈ vars) : ExprSim c n m lv vars (.ident id) := by
  intro f cs s s' t env hat hin _ hpre h
  obtain ⟨v, hv⟩ := Option.isSome_iff_exists.1 (hin _ hx)
  obtain ⟨rfl, rfl⟩ := (identifier_local hv).1 (expr_ident ▸ h)
  obtain ⟨a, ha, hty, hslot⟩ := hat.mirror.lookup hv
  have heval : evalExpr lv env (.ident id) = .ok (some a, env) := by
    simp [evalExpr, ha]
  rw [heval]
  exact ExprAnswer.of_push hat hpre (exec_load (isLoad_loadFor _) hslot) hty.symm

theorem sim_paren {e : Expr} {sp : Span} (ih : ExprSim c n m lv vars e) :
    ExprSim c n m lv vars (.paren e sp) := by
  intro f cs s s' t env hat hin hlab hpre h
  rw [evalExpr]
  exact ih hat hin hlab hpre (expr_paren ▸ h)

theorem sim_unary {op : UnOp} {e : Expr} {sp : Span} (ih : ExprSim c n m lv vars e) :
    ExprSim c n m lv vars (.unary op e sp) := by
  intro f cs s s' t env hat hin hlab hpre h
  obtain ⟨a, s₁, he, hav, _, hu⟩ := expr_unary_ok h
  rw [evalExpr]
  rcases unary_ok hu with ⟨rfl, code, hrule, rfl⟩ | ⟨rfl, rfl, rfl, rfl⟩
  · refine Answer.bind (ih hat hin hlab (List.IsPrefix.trans (by simp) hpre) he) (fun _ hs => hs) ?_
    intro v env₁ k L hty hL hmv hat₁
    obtain ⟨w, rfl, rfl⟩ := hty.some hav
    exact ExprAnswer.of_agrees hL hmv hat₁ (negate_agrees hrule) rfl hpre
  · refine Answer.bind (ih hat hin hlab (List.IsPrefix.trans (by simp) hpre) he) (fun _ hs => hs) ?_
    intro v env₁ k L hty hL hmv hat₁
    obtain ⟨w, rfl, hw⟩ := hty.some hav
    obtain ⟨b, rfl⟩ := PVal.eq_bool_of_ty hw
    exact ExprAnswer.of_agrees hL hmv hat₁ (not_agrees b) rfl hpre

theorem sim_binary {op : BinOp} {l r : Expr} {sp : Span} (hkl : Keeps l c vars) (hkr : Keeps r c vars)
    (ihl : ExprSim c n m lv vars l) (ihr : ExprSim c n m lv vars r) :
    ExprSim c n m lv vars (.binary op l r sp) := by
  intro f cs s s' t env hat hin hlab hpre h
  obtain ⟨a, s₁, b, s₂, hl, hav, _, hr, hbv, _, hb⟩ := expr_binary_ok h
  have hin₁ : ∀ x ∈ vars, (s₁.scope.lookup? x).isSome := by rwa [(hkl hl hin).2]
  have hpre₂ : s₂.emitter.code.toList <+: f.code.instructions.toList :=
    (binary_grows hb).1.prefix_.trans hpre
  have hpre₁ : s₁.emitter.code.toList <+: f.code.instructions.toList :=
    (hkr hr hin₁).1.prefix_.trans hpre₂
  rw [evalExpr]
  refine Answer.bind (ihl hat hin hlab hpre₁ hl) (fun _ hs => hs) ?_
  intro v env₁ k₁ L₁ hty₁ hL₁ hmv₁ hat₁
  obtain ⟨x, rfl, rfl⟩ := hty₁.some hav
  simp only [needValue_some_bind]
  refine Answer.bind (ihr hat₁ hin₁ hlab hpre₂ hr) (fun _ hs => hs.of_moves hmv₁) ?_
  intro w env₂ k₂ L₂ hty₂ hL₂ hmv₂ hat₂
  obtain ⟨y, rfl, rfl⟩ := hty₂.some hbv
  simp only [needValue_some_bind]
  have hmv := hmv₁.trans hmv₂
  have hL : L₂.size = f.locals.size := hL₂.trans hL₁
  -- the operator: a connective, a comparison or arithmetic
  rcases binary_ok hb with ⟨hlog, hx, hy, rfl, rfl⟩ | ⟨cmp, pre, jump, _, hcmp, hrule, rfl, rfl⟩ |
      ⟨ar, code, _, _, har, hrule, rfl⟩
  · obtain ⟨p, rfl⟩ := PVal.eq_bool_of_ty hx
    obtain ⟨q, rfl⟩ := PVal.eq_bool_of_ty hy
    exact ExprAnswer.of_agrees hL hmv hat₂ (logic_agrees hlog p q) rfl hpre
  · obtain ⟨b, hbin, st', hrun, hjump⟩ := compare_agrees hcmp hrule m f.stack
    rw [hbin]
    exact ExprAnswer.of_compare hL hmv hat₂ hrun hjump hlab hpre
  · exact ExprAnswer.of_agrees hL hmv hat₂ (arith_agrees har hrule) rfl hpre

theorem sim_assign {target value : Expr} {sp : Span} (ht : LocalTarget vars target)
    (hk : Keeps value c vars) (ih : ExprSim c n m lv vars value) :
    ExprSim c n m lv vars (.assign target value sp) := by
  intro f cs s s' t env hat hin hlab hpre h
  obtain ⟨lval, s₁, a, s₂, hlv, hv, hav, _, hacc, hst, rfl⟩ := expr_assign_ok h
  obtain ⟨rfl, x, v, hx, hvx, rfl⟩ := assignTarget_local ht hin hlv
  obtain rfl := storeTo_local.1 hst
  have hsc := (hk hv hin).2
  have hpre₂ : s₂.emitter.code.toList <+: f.code.instructions.toList :=
    List.IsPrefix.trans (by simp [Emitter.store]) hpre
  have hcode : CodeAt f.code.instructions.toList s₂.emitter.code.size
      [.slot (Opcode.storeFor v.ty.kind) v.slot] :=
    CodeAt.of_append (by simpa [Emitter.store] using hpre)
  rw [evalExpr, hx]
  refine Answer.bind (ih hat hin hlab hpre₂ hv) (fun _ hs => hs) ?_
  intro w env₁ k L hty hL hmv hat₁
  obtain ⟨y, rfl, rfl⟩ := hty.some hav
  simp only [needValue_some_bind]
  -- the variable assigned is the first of its name, in the same slot as before
  have hfind : s₂.scope.vars.find? (·.name == x) = some v := by
    rw [hsc]
    exact hvx
  obtain ⟨old, hold, hvold, _⟩ := hat₁.mirror.lookup hfind
  have hvy : v.ty = y.ty.ty := Ty.eq_of_accepts hacc
  have hty : old.ty = y.ty := PTy.ty_injective (hvold.symm.trans hvy)
  have hslot : v.slot < L.size :=
    Nat.lt_of_lt_of_le (hat₁.scope.below v (List.mem_of_find?_eq_some hfind)) hat₁.room
  simp only [hold, hty, if_true]
  have hstore : Moves m ({ f with pc := s₂.emitter.code.size, stack := pushOpt (some y) f.stack, locals := L } :: cs)
      1 m ({ f with pc := s₂.emitter.code.size + 1, stack := f.stack, locals := L.set! v.slot y.toValue } :: cs) :=
    Moves.of_exec hcode.fetch (exec_store (not_isLoad_storeFor _) (Stack.pop_push (PVal.toValue_ne_top y) _) hslot)
  refine ⟨rfl, k + 1, L.set! v.slot y.toValue, by simpa using hL, ?_, ⟨rfl, ?_, hat₁.scope, ?_⟩⟩
  · simpa [Emitter.store, pushOpt] using hmv.trans hstore
  · exact hat₁.mirror.set hat₁.scope.slots hfind hvy.symm
  · simpa using hat₁.room

theorem sim_cast {target : TypeExpr} {e : Expr} {sp : Span} (hp : (PTy.ofTypeExpr? target).isSome)
    (ih : ExprSim c n m lv vars e) : ExprSim c n m lv vars (.cast target e sp) := by
  intro f cs s s' t env hat hin hlab hpre h
  obtain ⟨p, hp⟩ := Option.isSome_iff_exists.1 hp
  obtain ⟨ty, a, s₁, hty, he, hav, _, hcast⟩ := expr_cast_ok h
  rw [MethodContext.resolveKnown_prim _ hp] at hty
  cases hty
  rw [evalExpr, hp]
  dsimp only
  obtain ⟨rfl, ⟨rfl, rfl⟩ | ⟨hne, hna, hnt, rfl⟩⟩ := cast_prim_ok hcast
  · -- a cast to the operand's own type: no code, the same value
    refine Answer.bind (ih hat hin hlab hpre he) (fun _ hs => hs) ?_
    intro v env₁ k L hty hL hmv hat₁
    obtain ⟨w, rfl, hw⟩ := hty.some hav
    obtain rfl := PTy.ty_injective hw
    simp only [needValue_some_bind, cast_self]
    exact ⟨rfl, k, L, hL, hmv, hat₁⟩
  · refine Answer.bind (ih hat hin hlab (List.IsPrefix.trans (by simp [Emitter.foldl_emit]) hpre) he)
      (fun _ hs => hs) ?_
    intro v env₁ k L hty hL hmv hat₁
    obtain ⟨w, rfl, rfl⟩ := hty.some hav
    simp only [needValue_some_bind]
    have hne' : w.ty ≠ p := fun h => hne (h ▸ rfl)
    exact ExprAnswer.of_agrees hL hmv hat₁ (conversion_agrees hne' hna hnt) rfl hpre

theorem sim_call {callee : Ident} {args : List Expr} {sp : Span} (hc : GlobalCtx c)
    (hcalls : CallsOk c.table c.owner.name n m lv) (hargs : ArgsSim c n m lv vars args) :
    ExprSim c n m lv vars (.call callee args sp) := by
  intro f cs s s' t env hat hin hlab hpre h
  obtain ⟨ts, s₁, hgen, hcall⟩ := expr_call_ok h
  obtain ⟨d, sig, hfind, _, rfl, rfl⟩ := bareCall_global hc hcall
  have hcode : CodeAt f.code.instructions.toList s₁.emitter.code.size [invokeInstruction d sig] :=
    CodeAt.of_append (by simpa using hpre)
  rw [evalExpr]
  refine Answer.bind (hargs hat hin hlab (List.IsPrefix.trans (by simp) hpre) hgen) (fun _ hs => hs) ?_
  intro vals env₁ k L hts hL hmv hat₁
  subst hts
  have hans : CallAnswer n m { f with pc := s₁.emitter.code.size, stack := pushArgs vals f.stack, locals := L }
      cs f.stack sig.ret (lv.call callee.name vals) :=
    hcalls hfind hcode.fetch rfl
  dsimp only
  cases hr : lv.call callee.name vals with
  | error e =>
    rw [hr] at hans
    exact hans.of_moves hmv
  | ok r =>
    rw [hr] at hans
    obtain ⟨hty, j, hmj⟩ := hans
    refine ⟨hty, k + j, L, hL, ?_, hat₁.goto (by rfl) _⟩
    simpa using hmv.trans hmj

/-- The arguments of a call, left to right. -/
theorem args_sim {args : List Expr} (hk : ∀ a ∈ args, Keeps a c vars)
    (ih : ∀ a ∈ args, ExprSim c n m lv vars a) : ArgsSim c n m lv vars args := by
  induction args with
  | nil =>
    intro f cs s s' ts env hat _ _ _ h
    obtain ⟨rfl, rfl⟩ := arguments_nil_ok.1 h
    refine ⟨rfl, 0, f.locals, rfl, ?_, hat.goto (by rfl) _⟩
    rw [← hat.pc]
    exact Moves.refl _ _
  | cons a rest ihr =>
    intro f cs s s' ts env hat hin hlab hpre h
    obtain ⟨t, s₁, ts', ha, htv, _, hrest, rfl⟩ := arguments_cons_ok h
    have hkr : ∀ b ∈ rest, Keeps b c vars := fun b hb => hk b (List.mem_cons_of_mem _ hb)
    have hin₁ : ∀ x ∈ vars, (s₁.scope.lookup? x).isSome := by
      rwa [(hk a List.mem_cons_self ha hin).2]
    have hpre₁ : s₁.emitter.code.toList <+: f.code.instructions.toList :=
      (arguments_keeps hkr hrest hin₁).1.prefix_.trans hpre
    rw [evalArgs]
    refine Answer.bind (ih a List.mem_cons_self hat hin hlab hpre₁ ha) (fun _ hs => hs) ?_
    intro v env₁ k L hty hL hmv hat₁
    obtain ⟨w, rfl, rfl⟩ := hty.some htv
    simp only [needValue_some_bind]
    refine Answer.bind (ihr hkr (fun b hb => ih b (List.mem_cons_of_mem _ hb)) hat₁ hin₁ hlab hpre hrest)
      (fun _ hs => hs.of_moves hmv) ?_
    intro vals env₂ k₂ L₂ hts hL₂ hmv₂ hat₂
    exact ⟨by simp [hts], k + k₂, L₂, hL₂.trans hL, hmv.trans hmv₂, hat₂⟩

/-- Every expression of the fragment runs on the machine as the source
    evaluates it, at any level whose calls do. -/
theorem expr_sim (hc : GlobalCtx c) (hcalls : CallsOk c.table c.owner.name n m lv) {e : Expr}
    (he : FragExpr vars e) : ExprSim c n m lv vars e := by
  induction he with
  | int => exact sim_int
  | long => exact sim_long
  | bool => exact sim_bool
  | ident hx => exact sim_ident hx
  | paren _ ih => exact sim_paren ih
  | unary _ ih => exact sim_unary ih
  | binary hl hr ihl ihr => exact sim_binary (expr_keeps hc hl) (expr_keeps hc hr) ihl ihr
  | assign ht hv ih => exact sim_assign ht (expr_keeps hc hv) ih
  | call hargs ih => exact sim_call hc hcalls (args_sim (fun a ha => expr_keeps hc (hargs a ha)) ih)
  | cast hp _ ih => exact sim_cast hp ih

end Expr

end ClassCompiler.Primitive
