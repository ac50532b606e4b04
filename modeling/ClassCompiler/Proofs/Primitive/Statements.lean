import ClassCompiler.Proofs.Primitive.Simulation

/-!
# Statements on the machine

The code of a statement of the primitive fragment, run from the point of a
body where it was generated, does what the source does: it goes on after its
code with the slots holding the variables, or the frame returns what the
source returns, or the machine stops as the source stops.

* `execStmt_normal`: a statement that ends normally does not always return,
  which is what lets the compiler leave out the code after one that does;
* `Leaves m f cs r`: the frame `f` hands `r` to its caller;
* `StmtAnswer`: the three answers of a statement's code;
* `LoopsOk`: the next round of a loop at a level runs as the loop's code does
  from its head;
* `stmt_sim`: the simulation of every statement of the fragment.
-/

namespace ClassCompiler.Primitive

open Syntax Machine Gen

/-! ### Statements that always return -/

@[simp] theorem Res.ok_bind {α β : Type} (a : α) (g : α → Res β) : (Except.ok a : Res α) >>= g = g a := rfl

@[simp] theorem Res.pure_eq {α : Type} (a : α) : (pure a : Res α) = .ok a := rfl

theorem Res.bind_eq_ok {α β : Type} {x : Res α} {g : α → Res β} {b : β} :
    x >>= g = .ok b ↔ ∃ a, x = .ok a ∧ g a = .ok b := by
  cases x <;> simp [bind, Except.bind]

mutual

/-- A statement that ends normally does not always return. -/
theorem execStmt_normal {lv : Level} {env env' : Env} :
    ∀ {S : Stmt}, execStmt lv env S = .ok (.normal env') → S.alwaysReturns = false
  | .expr .., _ => rfl
  | .letDecl .., _ => rfl
  | .while .., _ => rfl
  | .ifElse _ _ none _, _ => rfl
  | .ret none _, h => by simp [execStmt] at h
  | .ret (some e) _, h => by
    obtain ⟨⟨v, _⟩, -, h⟩ := Res.bind_eq_ok.1 h
    obtain ⟨a, -, h⟩ := Res.bind_eq_ok.1 h
    cases h
  | .block b, h => execBlock_normal h
  | .ifElse c t (some e) _, h => by
    obtain ⟨⟨v, env₁⟩, -, h⟩ := Res.bind_eq_ok.1 h
    obtain ⟨b, -, h⟩ := Res.bind_eq_ok.1 h
    simp only [Stmt.alwaysReturns, Bool.and_eq_false_iff]
    cases b with
    | true => exact .inl (execBlock_normal h)
    | false => exact .inr (execStmt_normal h)

theorem execBlock_normal {lv : Level} {env env' : Env} :
    ∀ {b : Block}, execBlock lv env b = .ok (.normal env') → b.alwaysReturns = false
  | .mk stmts _, h => by
    obtain ⟨r, hr, h⟩ := Res.bind_eq_ok.1 h
    cases r with
    | normal env₁ => exact execStmts_normal hr
    | returned v => cases h

theorem execStmts_normal {lv : Level} {env env' : Env} :
    ∀ {stmts : List Stmt}, execStmts lv env stmts = .ok (.normal env') → Stmt.anyReturns stmts = false
  | [], _ => rfl
  | S :: rest, h => by
    obtain ⟨r, hr, h⟩ := Res.bind_eq_ok.1 h
    cases r with
    | normal env₁ =>
      simp only [Stmt.anyReturns, Bool.or_eq_false_iff]
      exact ⟨execStmt_normal hr, execStmts_normal h⟩
    | returned v => cases h

end

/-! ### How the machine answers a statement -/

/-- The frame `f` hands `r` back: to its caller, which goes on with it, or as
    the result of the run when there is no caller. -/
def Leaves (m : State) (f : Frame) : List Frame → Option Value → Prop
  | [], r => ∃ k, Returns m [f] k r
  | c :: cs, r => ∃ k, Moves m (f :: c :: cs) k m (c.resumeWith f.resume r :: cs)

/-- The machine runs code as the source runs a statement: it goes on after the
    code generated up to `s'` with the slots holding the variables, or the frame
    returns what the source returns, of the return type `ret`, or the machine
    stops as the source does. -/
def StmtAnswer (n : Nat) (m : State) (ret : Ty) (f : Frame) (cs : List Frame) (s' : GenState) :
    Res Flow → Prop
  | .ok (.normal env') => ∃ k L, L.size = f.locals.size ∧
      Moves m (f :: cs) k m ({ f with pc := s'.emitter.code.size, locals := L } :: cs) ∧
      At { f with pc := s'.emitter.code.size, locals := L } s' env'
  | .ok (.returned v) => HasTy v ret ∧ Leaves m f cs (v.map PVal.toValue)
  | .error e => Stopped n m (f :: cs) e

section Answers

variable {n : Nat} {m : State} {ret : Ty} {f : Frame} {cs : List Frame} {s s' : GenState} {env : Env}

theorem Leaves.of_moves {k p : Nat} {st : List Value} {L : Array Value} {r : Option Value}
    (h : Moves m (f :: cs) k m ({ f with pc := p, stack := st, locals := L } :: cs))
    (hl : Leaves m { f with pc := p, stack := st, locals := L } cs r) : Leaves m f cs r := by
  cases cs with
  | nil =>
    obtain ⟨j, hj⟩ := hl
    exact ⟨k + j, h.returns hj⟩
  | cons c cs =>
    obtain ⟨j, hj⟩ := hl
    exact ⟨k + j, h.trans hj⟩

/-- Steps to a point from which the machine answers as a statement does. -/
theorem StmtAnswer.of_moves {k p : Nat} {L : Array Value} {r : Res Flow} (hL : L.size = f.locals.size)
    (h : Moves m (f :: cs) k m ({ f with pc := p, locals := L } :: cs))
    (ha : StmtAnswer n m ret { f with pc := p, locals := L } cs s' r) : StmtAnswer n m ret f cs s' r := by
  match r, ha with
  | .ok (.normal env'), ⟨j, L', hL', hmv, hat⟩ => exact ⟨k + j, L', hL'.trans hL, h.trans hmv, hat⟩
  | .ok (.returned v), ⟨hty, hl⟩ => exact ⟨hty, Leaves.of_moves h hl⟩
  | .error e, hs => exact Stopped.of_moves h hs

/-- A statement's answer after a first part whose returns are the statement's:
    the rest goes on from where the first part ends normally. -/
theorem StmtAnswer.bind {s₁ : GenState} {r : Res Flow} {g : Flow → Res Flow}
    (h : StmtAnswer n m ret f cs s₁ r) (hret : ∀ v, g (.returned v) = .ok (.returned v))
    (hnormal : ∀ env₁ k L, L.size = f.locals.size →
      Moves m (f :: cs) k m ({ f with pc := s₁.emitter.code.size, locals := L } :: cs) →
      At { f with pc := s₁.emitter.code.size, locals := L } s₁ env₁ → StmtAnswer n m ret f cs s' (g (.normal env₁))) :
    StmtAnswer n m ret f cs s' (r >>= g) := by
  match r, h with
  | .ok (.normal env₁), ⟨k, L, hL, hmv, hat⟩ => exact hnormal env₁ k L hL hmv hat
  | .ok (.returned v), hv =>
    show StmtAnswer n m ret f cs s' (g (.returned v))
    rw [hret]
    exact hv
  | .error e, hs => exact hs

/-- A statement's answer carried on to a later point of the code: only the
    normal end has to go on. -/
theorem StmtAnswer.extend {s₁ : GenState} {r : Res Flow} (h : StmtAnswer n m ret f cs s₁ r)
    (hnormal : ∀ env₁ k L, L.size = f.locals.size →
      Moves m (f :: cs) k m ({ f with pc := s₁.emitter.code.size, locals := L } :: cs) →
      At { f with pc := s₁.emitter.code.size, locals := L } s₁ env₁ → StmtAnswer n m ret f cs s' (.ok (.normal env₁))) :
    StmtAnswer n m ret f cs s' r := by
  match r, h with
  | .ok (.normal env₁), ⟨k, L, hL, hmv, hat⟩ => exact hnormal env₁ k L hL hmv hat
  | .ok (.returned v), hv => exact hv
  | .error e, hs => exact hs

/-- A statement that cannot end normally answers the same at any later point. -/
theorem StmtAnswer.of_not_normal {s₁ : GenState} {r : Res Flow} (h : StmtAnswer n m ret f cs s₁ r)
    (hr : ∀ env', r ≠ .ok (.normal env')) : StmtAnswer n m ret f cs s' r := by
  match r, h with
  | .ok (.normal env'), _ => exact absurd rfl (hr env')
  | .ok (.returned v), hv => exact hv
  | .error e, hs => exact hs

/-- The code of a branch that ends normally goes on through a label right
    after it. -/
theorem StmtAnswer.label {s₁ : GenState} {l : Nat} {r : Res Flow} (h : StmtAnswer n m ret f cs s₁ r)
    (hcode : CodeAt f.code.instructions.toList s₁.emitter.code.size [.label l])
    (hsize : s'.emitter.code.size = s₁.emitter.code.size + 1) (hvars : s'.scope.vars = s₁.scope.vars)
    (hok : ScopeOk s'.scope) (hroom : s'.scope.next ≤ f.locals.size) : StmtAnswer n m ret f cs s' r := by
  refine h.extend fun env₁ k L hL hmv hat => ⟨k + 1, L, hL, ?_, rfl, hvars ▸ hat.mirror, hok, hL ▸ hroom⟩
  rw [hsize]
  exact hmv.trans (Moves.label (CodeAt.fetch (f := { f with pc := s₁.emitter.code.size, locals := L }) hcode))

/-- The code of a branch that ends normally jumps over what follows, to a
    label. -/
theorem StmtAnswer.goto {s₁ : GenState} {l q : Nat} {r : Res Flow} (h : StmtAnswer n m ret f cs s₁ r)
    (hgoto : CodeAt f.code.instructions.toList s₁.emitter.code.size [.jump .goto l])
    (hq : CodeAt f.code.instructions.toList q [.label l]) (hlab : LabelsOnce f.code)
    (hsize : s'.emitter.code.size = q + 1) (hvars : s'.scope.vars = s₁.scope.vars)
    (hok : ScopeOk s'.scope) (hroom : s'.scope.next ≤ f.locals.size) : StmtAnswer n m ret f cs s' r := by
  refine h.extend fun env₁ k L hL hmv hat => ⟨k + 1 + 1, L, hL, ?_, rfl, hvars ▸ hat.mirror, hok, hL ▸ hroom⟩
  have m₁ : Moves m ({ f with pc := s₁.emitter.code.size, locals := L } :: cs) 1 m
      ({ f with pc := q, locals := L } :: cs) :=
    Moves.jump_taken (CodeAt.fetch (f := { f with pc := s₁.emitter.code.size, locals := L }) hgoto)
      branch_goto hq hlab
  have m₂ : Moves m ({ f with pc := q, locals := L } :: cs) 1 m ({ f with pc := q + 1, locals := L } :: cs) :=
    Moves.label (CodeAt.fetch (f := { f with pc := q, locals := L }) hq)
  rw [hsize]
  exact (hmv.trans m₁).trans m₂

/-- A first step makes room for one more level: running out of levels below
    `n` is running out of every budget up to `n + 1`. -/
theorem Stopped.succ_of_moves {k : Nat} {fs fs' : List Frame} {e : Stop} (h : Moves m fs (k + 1) m fs')
    (hs : Stopped n m fs' e) : Stopped (n + 1) m fs e := by
  cases e with
  | divByZero => exact Stopped.of_moves h hs
  | outOfFuel =>
    intro fuel hfuel
    exact h.exceeds_add (j := n) hs fuel (by omega)
  | wrong => exact hs

theorem StmtAnswer.succ_of_moves {k p : Nat} {r : Res Flow}
    (h : Moves m (f :: cs) (k + 1) m ({ f with pc := p } :: cs))
    (ha : StmtAnswer n m ret { f with pc := p } cs s' r) : StmtAnswer (n + 1) m ret f cs s' r := by
  match r, ha with
  | .ok (.normal env'), ⟨j, L', hL', hmv, hat⟩ => exact ⟨k + 1 + j, L', hL', h.trans hmv, hat⟩
  | .ok (.returned v), ⟨hty, hl⟩ => exact ⟨hty, Leaves.of_moves h hl⟩
  | .error e, hs => exact Stopped.succ_of_moves h hs

end Answers

/-! ### Steps at the start and the end of a statement -/

section Steps

variable {m : State} {f : Frame} {cs : List Frame} {s : GenState} {env : Env}

/-- The line marker a statement starts with, if the options ask for one, only
    moves on. -/
theorem At.setLine {l : Nat} (hat : At f s env)
    (hpre : (s.emitter.setLine l).code.toList <+: f.code.instructions.toList) (m : State) (cs : List Frame) :
    ∃ k, Moves m (f :: cs) k m ({ f with pc := (s.emitter.setLine l).code.size } :: cs) ∧
      At { f with pc := (s.emitter.setLine l).code.size } { s with emitter := s.emitter.setLine l } env := by
  have hat' : At { f with pc := (s.emitter.setLine l).code.size } { s with emitter := s.emitter.setLine l } env :=
    ⟨rfl, hat.mirror, hat.scope, hat.room⟩
  rcases Emitter.setLine_code (e := s.emitter) l with h | h
  · refine ⟨0, ?_, hat'⟩
    rw [h, ← hat.pc]
    exact Moves.refl _ _
  · have hcode : CodeAt f.code.instructions.toList f.pc [.line l] :=
      hat.pc ▸ CodeAt.of_append (by simpa [h] using hpre)
    refine ⟨1, ?_, hat'⟩
    rw [h, Array.size_push, ← hat.pc]
    exact Moves.line hcode.fetch

/-- A frame at a return hands the value back. -/
theorem Leaves.of_return {i : Instruction} {r : Option Value} (hi : f.code.instructions[f.pc]? = some i)
    (h : exec m { f with pc := f.pc + 1 } i = .ok (.ret m r)) : Leaves m f cs r := by
  cases cs with
  | nil => exact ⟨1, Returns.of_exec hi h⟩
  | cons c cs => exact ⟨1, Moves.of_return hi h⟩

/-- The return the compiler emits for the type of a value returns the value. -/
theorem simple_returnFor (a : PVal) (st : List Value) :
    simple m (Stack.push a.toValue st) (Opcode.returnFor a.ty.ty.kind) = .ok (.inr (some a.toValue)) := by
  cases a <;> rfl

/-- A result of its type is never a type name. -/
theorem HasTy.isTypeRef_eq {v : Option PVal} {t : Ty} (hv : HasTy v t) : t.isTypeRef = false := by
  cases v with
  | none =>
    cases hv
    rfl
  | some a =>
    cases hv
    cases a <;> rfl

/-- Dropping a result of its type: the code the compiler emits takes it off
    the stack. -/
theorem pop_pushOpt {v : Option PVal} {t : Ty} (hv : HasTy v t) (e : Emitter) (st : List Value) :
    ∃ ops, e.pop t = ops.foldl Emitter.emit e ∧ runSimple m ops (pushOpt v st) = .ok (m, st) := by
  cases v with
  | none =>
    cases hv
    exact ⟨[], rfl, rfl⟩
  | some a =>
    cases hv
    cases a with
    | long x => exact ⟨[.pop2], rfl, rfl⟩
    | int x | bool x | byte x | char x | short x => exact ⟨[.pop], rfl, rfl⟩

/-- `IFEQ` on a condition jumps when it is false. -/
theorem branch_ifeq_bool (b : Bool) (st : List Value) :
    branch .ifeq (pushOpt (some (.bool b)) st) = .ok (!b, st) := by
  cases b <;> rfl

/-- The test of a condition: after its code, `IFEQ` goes on into the code
    after it when the condition holds, and past its label when not. -/
theorem Answer.test {n : Nat} {s₁ : GenState} {r : Res (Option PVal × Env)} {β : Type}
    {g : Option PVal × Env → Res β} {Q : Res β → Prop} {lbl q : Nat}
    (h : ExprAnswer n m f cs s₁ .bool r)
    (hjump : CodeAt f.code.instructions.toList s₁.emitter.code.size [.jump .ifeq lbl])
    (hq : CodeAt f.code.instructions.toList q [.label lbl]) (hlab : LabelsOnce f.code)
    (hstop : ∀ e, Stopped n m (f :: cs) e → Q (.error e))
    (hyes : ∀ env₁ k L, L.size = f.locals.size → At { f with pc := s₁.emitter.code.size, locals := L } s₁ env₁ →
      Moves m (f :: cs) k m ({ f with pc := s₁.emitter.code.size + 1, locals := L } :: cs) →
      Q (g (some (.bool true), env₁)))
    (hno : ∀ env₁ k L, L.size = f.locals.size → At { f with pc := s₁.emitter.code.size, locals := L } s₁ env₁ →
      Moves m (f :: cs) k m ({ f with pc := q + 1, locals := L } :: cs) → Q (g (some (.bool false), env₁))) :
    Q (r >>= g) := by
  refine Answer.bind h hstop ?_
  intro v env₁ k L hv hL hmv hat₁
  obtain ⟨a, rfl, ha⟩ := hv.some fun h => Ty.noConfusion h
  obtain ⟨b, rfl⟩ := PVal.eq_bool_of_ty ha
  have hat : At { f with pc := s₁.emitter.code.size, locals := L } s₁ env₁ :=
    ⟨rfl, hat₁.mirror, hat₁.scope, hat₁.room⟩
  have hi := CodeAt.fetch (f := { f with
    pc := s₁.emitter.code.size
    stack := pushOpt (some (.bool b)) f.stack
    locals := L }) hjump
  cases b with
  | true => exact hyes env₁ (k + 1) L hL hat (hmv.trans (Moves.jump_not_taken hi (branch_ifeq_bool true f.stack)))
  | false =>
    have m₁ : Moves m ({ f with
        pc := s₁.emitter.code.size
        stack := pushOpt (some (.bool false)) f.stack
        locals := L } :: cs) 1 m ({ f with pc := q, locals := L } :: cs) :=
      Moves.jump_taken hi (branch_ifeq_bool false f.stack) hq hlab
    have m₂ : Moves m ({ f with pc := q, locals := L } :: cs) 1 m ({ f with pc := q + 1, locals := L } :: cs) :=
      Moves.label (CodeAt.fetch (f := { f with pc := q, locals := L }) hq)
    exact hno env₁ (k + 1 + 1) L hL hat ((hmv.trans m₁).trans m₂)

end Steps

theorem Ty.eq_void_of_isVoid {t : Ty} (h : t.isVoid = true) : t = .void := by
  unfold Ty.isVoid at h
  split at h
  · rfl
  · cases h

/-- A new variable in a slot below which all others lie. -/
theorem Mirror.push {L : Array Value} {vars : List LocalVar} {env : Env} {w : LocalVar} {x : String}
    {a : PVal} (h : Mirror L vars env) (hbelow : ∀ v ∈ vars, v.slot < w.slot) (hw : w.slot < L.size)
    (hname : w.name = x) (hty : w.ty = a.ty.ty) :
    Mirror (L.set! w.slot a.toValue) (w :: vars) ((x, a) :: env) := by
  refine ⟨hname, hty, ?_, h.set_other fun v hv => Nat.ne_of_lt (hbelow v hv)⟩
  rw [Array.set!_eq_setIfInBounds, Array.getElem?_setIfInBounds, if_pos rfl, if_pos hw]

/-- The variables behind those of a block stay mirrored when the block's own
    are dropped. -/
theorem Mirror.drop {L : Array Value} :
    ∀ {new old : List LocalVar} {env : Env}, Mirror L (new ++ old) env → Mirror L old (env.drop new.length)
  | [], _, _, h => h
  | _ :: _, _, [], h => h.elim
  | _ :: new, _, _ :: env, h => by
    show Mirror L _ (env.drop new.length)
    exact Mirror.drop h.2.2.2

/-! ### Statements -/

/-- The simulation of a statement at a level: run from the point of a body
    where its code was generated, with the slots holding the variables and
    room for every slot the body takes, the machine answers as the source runs
    the statement. -/
def StmtSim (c : MethodContext) (n : Nat) (m : State) (lv : Level) (vars : List String) (S : Stmt) :
    Prop :=
  ∀ {f : Frame} {cs : List Frame} {s s' : GenState} {env : Env},
    At f s env → (∀ x ∈ vars, (s.scope.lookup? x).isSome) → LabelsOnce f.code →
    s'.emitter.code.toList <+: f.code.instructions.toList → s'.scope.next ≤ f.locals.size →
    stmt S c s = .ok ((), s') → StmtAnswer n m c.method.ret f cs s' (execStmt lv env S)

/-- The simulation of a block. -/
def BlockSim (c : MethodContext) (n : Nat) (m : State) (lv : Level) (vars : List String) (b : Block) :
    Prop :=
  ∀ {f : Frame} {cs : List Frame} {s s' : GenState} {env : Env},
    At f s env → (∀ x ∈ vars, (s.scope.lookup? x).isSome) → LabelsOnce f.code →
    s'.emitter.code.toList <+: f.code.instructions.toList → s'.scope.next ≤ f.locals.size →
    block b c s = .ok ((), s') → StmtAnswer n m c.method.ret f cs s' (execBlock lv env b)

/-- The simulation of a list of statements. -/
def StmtsSim (c : MethodContext) (n : Nat) (m : State) (lv : Level) (vars : List String)
    (stmts : List Stmt) : Prop :=
  ∀ {f : Frame} {cs : List Frame} {s s' : GenState} {env : Env},
    At f s env → (∀ x ∈ vars, (s.scope.lookup? x).isSome) → LabelsOnce f.code →
    s'.emitter.code.toList <+: f.code.instructions.toList → s'.scope.next ≤ f.locals.size →
    stmtList stmts c s = .ok ((), s') → StmtAnswer n m c.method.ret f cs s' (execStmts lv env stmts)

/-- Loops at a level run as their code does: from the head of the code of a
    loop of the fragment, with the slots holding the variables, the machine
    answers what the next round of the loop answers at the level. -/
def LoopsOk (c : MethodContext) (n : Nat) (m : State) (lv : Level) : Prop :=
  ∀ {vars : List String} {cond : Expr} {body : Block} {sp : Span} {f : Frame} {cs : List Frame}
    {s s' : GenState} {env : Env},
    FragExpr vars cond → FragBlock vars body → stmt (.while cond body sp) c s = .ok ((), s') →
    At f { s with emitter := (s.emitter.setLine sp.line).newLabel.2.newLabel.2 } env →
    (∀ x ∈ vars, (s.scope.lookup? x).isSome) → LabelsOnce f.code →
    s'.emitter.code.toList <+: f.code.instructions.toList → s'.scope.next ≤ f.locals.size →
    StmtAnswer n m c.method.ret f cs s' (lv.loop cond body env)

section Stmt

variable {c : MethodContext} {n : Nat} {m : State} {lv : Level} {vars : List String}

theorem sim_expr (hc : GlobalCtx c) (hcalls : CallsOk c.table c.owner.name n m lv) {e : Expr} {sp : Span}
    (he : FragExpr vars e) : StmtSim c n m lv vars (.expr e sp) := by
  intro f cs s s' env hat hin hlab hpre hroom h
  obtain ⟨t, s₁, he', hs'⟩ := stmt_expr_ok h
  obtain ⟨g₁, sc₁⟩ := expr_keeps hc he he' hin
  have hpre₁ : s₁.emitter.code.toList <+: f.code.instructions.toList := by
    refine List.IsPrefix.trans ?_ hpre
    rw [hs']
    split
    · exact List.prefix_refl _
    · exact (Grows.pop t).prefix_
  obtain ⟨k₀, hmv₀, hat₀⟩ := hat.setLine (g₁.prefix_.trans hpre₁) m cs
  rw [execStmt]
  refine StmtAnswer.of_moves rfl hmv₀ ?_
  refine Answer.bind (expr_sim hc hcalls he hat₀ hin hlab hpre₁ he') (fun _ hs => hs) ?_
  intro v env₁ k L hv hL hmv hat₁
  -- the value is no type name, so it is dropped
  rw [if_neg (by simp [hv.isTypeRef_eq])] at hs'
  subst hs'
  obtain ⟨ops, hops, hrun⟩ := pop_pushOpt (m := m) hv s₁.emitter f.stack
  rw [hops] at hpre hroom ⊢
  have hcode : CodeAt f.code.instructions.toList s₁.emitter.code.size (ops.map .simple) :=
    CodeAt.of_append (by simpa [Emitter.foldl_emit] using hpre)
  have hdrop : Moves m ({ f with pc := s₁.emitter.code.size, stack := pushOpt v f.stack, locals := L } :: cs)
      ops.length m ({ f with pc := s₁.emitter.code.size + ops.length, locals := L } :: cs) :=
    Moves.simples (f := { f with pc := s₁.emitter.code.size, stack := pushOpt v f.stack, locals := L }) hcode hrun
  refine ⟨k + ops.length, L, hL, ?_, rfl, hat₁.mirror, hat₁.scope, hat₁.room⟩
  simpa [Emitter.foldl_emit] using hmv.trans hdrop

theorem sim_let (hc : GlobalCtx c) (hcalls : CallsOk c.table c.owner.name n m lv) {x : Ident}
    {ty : Option TypeExpr} {init : Expr} {sp : Span} (hty : ∀ t ∈ ty, (PTy.ofTypeExpr? t).isSome)
    (he : FragExpr vars init) : StmtSim c n m lv vars (.letDecl x ty init sp) := by
  intro f cs s s' env hat hin hlab hpre hroom h
  obtain ⟨i, s₁, hi, hiv, _, hd⟩ := stmt_let_ok hty h
  obtain ⟨slot, sc, hacc, hdecl, rfl⟩ := declareLocal_ok hd
  have hok := hdecl
  obtain ⟨-, rfl, rfl⟩ := Scope.declare_ok hdecl
  obtain ⟨g₁, sc₁⟩ := expr_keeps hc he hi hin
  have hpre₁ : s₁.emitter.code.toList <+: f.code.instructions.toList :=
    List.IsPrefix.trans (by simp [Emitter.store]) hpre
  obtain ⟨k₀, hmv₀, hat₀⟩ := hat.setLine (g₁.prefix_.trans hpre₁) m cs
  rw [execStmt]
  refine StmtAnswer.of_moves rfl hmv₀ ?_
  refine Answer.bind (expr_sim hc hcalls he hat₀ hin hlab hpre₁ hi) (fun _ hs => hs) ?_
  intro v env₁ k L hv hL hmv hat₁
  obtain ⟨a, rfl, rfl⟩ := hv.some hiv
  -- a written type is the initializer's, so the source declares the variable too
  obtain ⟨hT, hdeclare⟩ : (ty.bind fun t => (PTy.ofTypeExpr? t).map PTy.ty).getD a.ty.ty = a.ty.ty ∧
      declare x.name ty a env₁ = .ok ((x.name, a) :: env₁) := by
    cases ty with
    | none => exact ⟨rfl, rfl⟩
    | some t =>
      obtain ⟨p, hp⟩ := Option.isSome_iff_exists.1 (hty t rfl)
      have hpa : p.ty = a.ty.ty := Ty.eq_of_accepts (hacc p.ty (by simp [hp]))
      refine ⟨by simp [hp, hpa], ?_⟩
      simp [declare, hp, PTy.ty_injective hpa]
  simp only [needValue_some_bind, hdeclare, Res.ok_bind, Res.pure_eq]
  -- the value goes into the next free slot
  have hL' : L.size = f.locals.size := hL
  have hslot : s₁.scope.next < L.size := by
    have := Nat.le_max_right ((ty.bind fun t => (PTy.ofTypeExpr? t).map PTy.ty).getD a.ty.ty).slotSize 1
    simp only at hroom
    omega
  have hcode : CodeAt f.code.instructions.toList s₁.emitter.code.size
      [.slot (Opcode.storeFor ((ty.bind fun t => (PTy.ofTypeExpr? t).map PTy.ty).getD a.ty.ty).kind) s₁.scope.next] :=
    CodeAt.of_append (by simpa [Emitter.store] using hpre)
  have hstore : Moves m ({ f with pc := s₁.emitter.code.size, stack := pushOpt (some a) f.stack, locals := L } :: cs)
      1 m ({ f with pc := s₁.emitter.code.size + 1, locals := L.set! s₁.scope.next a.toValue } :: cs) :=
    Moves.of_exec (CodeAt.fetch (f := { f with
        pc := s₁.emitter.code.size
        stack := pushOpt (some a) f.stack
        locals := L }) hcode)
      (exec_store (not_isLoad_storeFor _) (Stack.pop_push (PVal.toValue_ne_top a) _) hslot)
  refine ⟨k + 1, L.set! s₁.scope.next a.toValue, by simpa using hL', ?_, rfl, ?_,
    hat₁.scope.declare hok, ?_⟩
  · simpa [Emitter.store] using hmv.trans hstore
  · exact hat₁.mirror.push (fun v hv => hat₁.scope.below v hv) hslot rfl hT
  · simpa [hL'] using hroom

theorem sim_ret (hc : GlobalCtx c) (hcalls : CallsOk c.table c.owner.name n m lv) {value : Option Expr}
    {sp : Span} (hv : ∀ e ∈ value, FragExpr vars e) : StmtSim c n m lv vars (.ret value sp) := by
  intro f cs s s' env hat hin hlab hpre hroom h
  rcases stmt_ret_ok h with ⟨rfl, hvoid, rfl⟩ | ⟨e, t, s₁, rfl, -, he, htv, -, hacc, rfl⟩
  · -- no value, in a method that returns nothing
    have hcode : CodeAt f.code.instructions.toList (s.emitter.setLine sp.line).code.size
        [.simple .returnVoid] :=
      CodeAt.of_append (by simpa using hpre)
    obtain ⟨k₀, hmv₀, -⟩ := hat.setLine (l := sp.line) (List.IsPrefix.trans (by simp) hpre) m cs
    refine ⟨Ty.eq_void_of_isVoid hvoid, Leaves.of_moves hmv₀ ?_⟩
    exact Leaves.of_return (CodeAt.fetch (f := { f with pc := (s.emitter.setLine sp.line).code.size }) hcode)
      (exec_simple_ret simple_return)
  · -- the value, then the return for its type
    obtain ⟨g₁, -⟩ := expr_keeps hc (hv e rfl) he hin
    have hpre₁ : s₁.emitter.code.toList <+: f.code.instructions.toList :=
      List.IsPrefix.trans (by simp [Emitter.emitReturn]) hpre
    obtain ⟨k₀, hmv₀, hat₀⟩ := hat.setLine (g₁.prefix_.trans hpre₁) m cs
    rw [execStmt]
    refine StmtAnswer.of_moves rfl hmv₀ ?_
    refine Answer.bind (expr_sim hc hcalls (hv e rfl) hat₀ hin hlab hpre₁ he) (fun _ hs => hs) ?_
    intro w env₁ k L hw _ hmv _
    obtain ⟨a, rfl, rfl⟩ := hw.some htv
    have hret : c.method.ret = a.ty.ty := Ty.eq_of_accepts hacc
    simp only [needValue_some_bind, Res.pure_eq]
    have hcode : CodeAt f.code.instructions.toList s₁.emitter.code.size
        [.simple (Opcode.returnFor a.ty.ty.kind)] :=
      CodeAt.of_append (by simpa [Emitter.emitReturn, hret] using hpre)
    have hleave : Leaves m { f with pc := s₁.emitter.code.size, stack := pushOpt (some a) f.stack, locals := L }
        cs (some a.toValue) :=
      Leaves.of_return (CodeAt.fetch (f := { f with
          pc := s₁.emitter.code.size
          stack := pushOpt (some a) f.stack
          locals := L }) hcode)
        (exec_simple_ret (simple_returnFor a f.stack))
    exact ⟨hret.symm, Leaves.of_moves hmv hleave⟩

theorem sim_block {b : Block} (hb : BlockShape c b vars) (ih : BlockSim c n m lv vars b) :
    StmtSim c n m lv vars (.block b) := by
  intro f cs s s' env hat hin hlab hpre hroom h
  have h' := stmt_block_ok.1 h
  obtain ⟨g, -⟩ := hb h' hat.scope hin
  obtain ⟨k₀, hmv₀, hat₀⟩ := hat.setLine (g.prefix_.trans hpre) m cs
  rw [execStmt]
  exact StmtAnswer.of_moves rfl hmv₀ (ih hat₀ hin hlab hpre hroom h')

theorem block_sim_mk {stmts : List Stmt} {sp : Span} {vars' : List String} (hs : StmtsShape c stmts vars vars')
    (ih : StmtsSim c n m lv vars stmts) : BlockSim c n m lv vars (.mk stmts sp) := by
  intro f cs s s' env hat hin hlab hpre hroom h
  obtain ⟨s₁, h₁, rfl⟩ := block_ok.1 h
  obtain ⟨-, -, ⟨new, hx, -⟩, -⟩ := hs h₁ hat.scope.enter hin
  -- entering the block changes no variable
  have hat₀ : At f { s with scope := s.scope.enter } env := ⟨hat.pc, hat.mirror, hat.scope.enter, hat.room⟩
  rw [execBlock]
  have hpre₁ : s₁.emitter.code.toList <+: f.code.instructions.toList := hpre
  refine StmtAnswer.bind (ih hat₀ hin hlab hpre₁ hroom h₁) (fun _ => rfl) ?_
  intro env₁ k L hL hmv hat₁
  -- leaving it forgets the variables declared in it, which come first
  have hmir : Mirror L (new ++ s.scope.vars) env₁ := hx.vars ▸ hat₁.mirror
  have hlen : env₁.length - env.length = new.length := by
    have h₁ := hmir.length_eq
    have h₂ := hat.mirror.length_eq
    simp only [List.length_append] at h₁
    omega
  have hleave := Extends.leave hat.scope hx
  refine ⟨k, L, hL, hmv, rfl, ?_, hat₁.scope.leave, hat₁.room⟩
  simp only [hleave.vars, List.nil_append, hlen]
  exact hmir.drop

theorem stmts_sim_nil : StmtsSim c n m lv vars [] := by
  intro f cs s s' env hat _ _ _ _ h
  obtain rfl := stmtList_nil_ok.1 h
  refine ⟨0, f.locals, rfl, ?_, rfl, hat.mirror, hat.scope, hat.room⟩
  rw [← hat.pc]
  exact Moves.refl _ _

theorem stmts_sim_cons {S : Stmt} {rest : List Stmt} {vars' vars'' : List String}
    (hS : StmtShape c S vars vars') (hrest : StmtsShape c rest vars' vars'')
    (ih₁ : StmtSim c n m lv vars S) (ih₂ : StmtsSim c n m lv vars' rest) :
    StmtsSim c n m lv vars (S :: rest) := by
  intro f cs s s' env hat hin hlab hpre hroom h
  obtain ⟨s₁, hs₁, hrest₁⟩ := stmtList_cons_ok.1 h
  obtain ⟨-, hok₁, ⟨new, hx, hn⟩, -⟩ := hS hs₁ hat.scope hin
  have hin₁ := hx.lookups hin hn
  obtain ⟨g₂, -⟩ := hrest hrest₁ hok₁ hin₁
  rw [execStmts]
  refine StmtAnswer.bind (ih₁ hat hin hlab (g₂.prefix_.trans hpre) (Nat.le_trans g₂.next_le hroom) hs₁)
    (fun _ => rfl) ?_
  intro env₁ k L hL hmv hat₁
  exact StmtAnswer.of_moves hL hmv (ih₂ hat₁ hin₁ hlab hpre (hL ▸ hroom) hrest₁)

theorem sim_if (hc : GlobalCtx c) (hcalls : CallsOk c.table c.owner.name n m lv) {cond : Expr} {t : Block}
    {elseS : Option Stmt} {sp : Span} (hcond : FragExpr vars cond) (hthen : BlockShape c t vars)
    (ihthen : BlockSim c n m lv vars t) (helse : ∀ e ∈ elseS, StmtShape c e vars vars ∧ StmtSim c n m lv vars e) :
    StmtSim c n m lv vars (.ifElse cond t elseS sp) := by
  intro f cs s s' env hat hin hlab hpre hroom h
  obtain ⟨s₁, s₂, hc₁, hthen₁, hrest⟩ := stmt_if_ok h
  obtain ⟨g₁, sc₁⟩ := expr_keeps hc hcond hc₁ hin
  have hin₁ : ∀ x ∈ vars, (s₁.scope.lookup? x).isSome := by rwa [sc₁]
  obtain ⟨g₂, hok₂, hx₂, -⟩ := hthen hthen₁ (sc₁ ▸ hat.scope) hin₁
  have hvars₂ : s₂.scope.vars = s₁.scope.vars := by simpa using hx₂.vars
  have hin₂ : ∀ x ∈ vars, (s₂.scope.lookup? x).isSome := hx₂.lookups hin₁ rfl
  -- the label past the then-block is still free at its end
  have gjump : Grows { s₁ with emitter := s₁.emitter.newLabel.2 } s₂ := (Grows.jump _ _).trans g₂
  have hL := gjump.fresh
  have hplace := Emitter.place_code_of_fresh hL
  -- where the frame finds the code of the condition and of the then-block
  have hcode : ∀ p, s₂.emitter.code.toList ++ p <+: f.code.instructions.toList →
      s₂.emitter.code.toList <+: f.code.instructions.toList ∧
      CodeAt f.code.instructions.toList s₁.emitter.code.size [.jump .ifeq s₁.emitter.bound.size] ∧
        s₁.emitter.code.toList <+: f.code.instructions.toList := by
    intro p hp
    have hpre₂ := (List.prefix_append _ _).trans hp
    have hj : (s₁.emitter.code.push (.jump .ifeq s₁.emitter.bound.size)).toList <+: f.code.instructions.toList :=
      g₂.prefix_.trans hpre₂
    exact ⟨hpre₂, CodeAt.of_append (by simpa using hj), List.IsPrefix.trans (by simp) hj⟩
  -- the then-block, run from after the jump
  have hblock : ∀ {env₁ L cs}, At { f with pc := s₁.emitter.code.size, locals := L } s₁ env₁ →
      s₂.emitter.code.toList <+: f.code.instructions.toList → s₂.scope.next ≤ L.size →
      StmtAnswer n m c.method.ret { f with pc := s₁.emitter.code.size + 1, locals := L } cs s₂
        (execBlock lv env₁ t) := by
    intro env₁ L cs hat₁ hpre₂ hroom₂
    have hat₁' : At { f with pc := s₁.emitter.code.size + 1, locals := L }
        { s₁ with emitter := s₁.emitter.newLabel.2.jump .ifeq s₁.emitter.bound.size } env₁ :=
      ⟨by simp, hat₁.mirror, hat₁.scope, hat₁.room⟩
    exact ihthen hat₁' hin₁ hlab hpre₂ hroom₂ hthen₁
  rw [execStmt]
  rcases hrest with ⟨rfl, rfl⟩ | ⟨e, rfl, hret, he⟩ | ⟨e, s₃, rfl, -, he, rfl⟩
  · -- no else: when the condition fails, the frame goes to the label past the then-block
    have hq : CodeAt f.code.instructions.toList s₂.emitter.code.size [.label s₁.emitter.bound.size] :=
      CodeAt.of_append (by simpa [hplace] using hpre)
    obtain ⟨hpre₂, hjump, hpre₁⟩ := hcode [.label s₁.emitter.bound.size] (by simpa [hplace] using hpre)
    obtain ⟨k₀, hmv₀, hat₀⟩ := hat.setLine (g₁.prefix_.trans hpre₁) m cs
    refine StmtAnswer.of_moves rfl hmv₀ ?_
    refine Answer.test (expr_sim hc hcalls hcond hat₀ hin hlab hpre₁ hc₁) hjump hq hlab (fun _ hs => hs) ?_ ?_
    · intro env₁ k L hL hat₁ hmv
      show StmtAnswer _ _ _ _ _ _ (execBlock lv env₁ t)
      have hroom₂ : s₂.scope.next ≤ L.size := by simpa [hL] using hroom
      exact StmtAnswer.of_moves hL hmv ((hblock hat₁ hpre₂ hroom₂).label hq (by simp [hplace]) rfl hok₂
        (by simpa [hL] using hroom))
    · intro env₁ k L hL hat₁ hmv
      show StmtAnswer _ _ _ _ _ _ (.ok (.normal env₁))
      refine ⟨k, L, hL, by simpa [hplace] using hmv, rfl, hvars₂ ▸ hat₁.mirror, hok₂, ?_⟩
      simpa [hL] using hroom
  · -- an else-branch after a then-block that always returns: nothing jumps over it
    obtain ⟨hshape, hsim⟩ := helse e rfl
    obtain ⟨g₃, -, -, -⟩ := hshape he hok₂ hin₂
    have hpreP : (s₂.emitter.place s₁.emitter.bound.size).code.toList <+: f.code.instructions.toList :=
      g₃.prefix_.trans hpre
    have hq : CodeAt f.code.instructions.toList s₂.emitter.code.size [.label s₁.emitter.bound.size] :=
      CodeAt.of_append (by simpa [hplace] using hpreP)
    obtain ⟨hpre₂, hjump, hpre₁⟩ := hcode [.label s₁.emitter.bound.size] (by simpa [hplace] using hpreP)
    have hroom₂ : s₂.scope.next ≤ f.locals.size := Nat.le_trans g₃.next_le hroom
    obtain ⟨k₀, hmv₀, hat₀⟩ := hat.setLine (g₁.prefix_.trans hpre₁) m cs
    refine StmtAnswer.of_moves rfl hmv₀ ?_
    refine Answer.test (expr_sim hc hcalls hcond hat₀ hin hlab hpre₁ hc₁) hjump hq hlab (fun _ hs => hs) ?_ ?_
    · intro env₁ k L hL hat₁ hmv
      show StmtAnswer _ _ _ _ _ _ (execBlock lv env₁ t)
      -- the then-block always returns, so it never ends normally
      refine StmtAnswer.of_moves hL hmv ((hblock hat₁ hpre₂ (hL ▸ hroom₂)).of_not_normal fun env' hn => ?_)
      have := execBlock_normal hn
      rw [hret] at this
      cases this
    · intro env₁ k L hL hat₁ hmv
      show StmtAnswer _ _ _ _ _ _ (execStmt lv env₁ e)
      have hatP : At { f with pc := s₂.emitter.code.size + 1, locals := L }
          { s₂ with emitter := s₂.emitter.place s₁.emitter.bound.size } env₁ :=
        ⟨by simp [hplace], hvars₂ ▸ hat₁.mirror, hok₂, hL ▸ hroom₂⟩
      exact StmtAnswer.of_moves hL hmv (hsim hatP hin₂ hlab hpre (hL ▸ hroom) he)
  · -- an else-branch the then-block jumps over, to a second label
    obtain ⟨hshape, hsim⟩ := helse e rfl
    obtain ⟨g₃, hok₃, ⟨new, hx₃, hn⟩, -⟩ := hshape he hok₂ hin₂
    have hvars₃ : s₃.scope.vars = s₂.scope.vars := by simpa using (hx₃.nil_of_names hn).vars
    -- both labels are free where they are placed
    have hlt : s₁.emitter.bound.size < s₂.emitter.bound.size := (Array.getElem?_eq_some_iff.1 hL).1
    have hLP : (s₂.emitter.newLabel.2.jump .goto s₂.emitter.bound.size).bound[s₁.emitter.bound.size]? =
        some false := by
      rw [Emitter.jump_bound, Emitter.newLabel_bound, Array.getElem?_push, if_neg (by omega)]
      exact hL
    have hM : s₃.emitter.bound[s₂.emitter.bound.size]? = some false := by
      rw [g₃.bound_keep _ (by simp), Emitter.place_bound_ne (by omega)]
      simp
    have hplaceL := Emitter.place_code_of_fresh hLP
    have hplaceM := Emitter.place_code_of_fresh hM
    have hpre₃ : s₃.emitter.code.toList <+: f.code.instructions.toList :=
      List.IsPrefix.trans (by simp [hplaceM]) hpre
    have hqM : CodeAt f.code.instructions.toList s₃.emitter.code.size [.label s₂.emitter.bound.size] :=
      CodeAt.of_append (by simpa [hplaceM] using hpre)
    have hpreP := g₃.prefix_.trans hpre₃
    have hjumps : CodeAt f.code.instructions.toList s₂.emitter.code.size
        [.jump .goto s₂.emitter.bound.size, .label s₁.emitter.bound.size] :=
      CodeAt.of_append (by simpa [hplaceL] using hpreP)
    obtain ⟨hpre₂, hjump, hpre₁⟩ := hcode [.jump .goto s₂.emitter.bound.size, .label s₁.emitter.bound.size]
      (by simpa [hplaceL] using hpreP)
    have hroom₂ : s₂.scope.next ≤ f.locals.size := Nat.le_trans g₃.next_le hroom
    obtain ⟨k₀, hmv₀, hat₀⟩ := hat.setLine (g₁.prefix_.trans hpre₁) m cs
    refine StmtAnswer.of_moves rfl hmv₀ ?_
    refine Answer.test (expr_sim hc hcalls hcond hat₀ hin hlab hpre₁ hc₁) hjump hjumps.tail hlab
      (fun _ hs => hs) ?_ ?_
    · intro env₁ k L hL hat₁ hmv
      show StmtAnswer _ _ _ _ _ _ (execBlock lv env₁ t)
      exact StmtAnswer.of_moves hL hmv ((hblock hat₁ hpre₂ (hL ▸ hroom₂)).goto hjumps.head hqM hlab
        (by simp [hplaceM]) hvars₃ hok₃ (hL ▸ hroom))
    · intro env₁ k L hL hat₁ hmv
      show StmtAnswer _ _ _ _ _ _ (execStmt lv env₁ e)
      have hatP : At { f with pc := s₂.emitter.code.size + 1 + 1, locals := L }
          { s₂ with
            emitter := (s₂.emitter.newLabel.2.jump .goto s₂.emitter.bound.size).place s₁.emitter.bound.size }
          env₁ :=
        ⟨by simp [hplaceL], hvars₂ ▸ hat₁.mirror, hok₂, hL ▸ hroom₂⟩
      exact StmtAnswer.of_moves hL hmv ((hsim hatP hin₂ hlab hpre₃ (hL ▸ Nat.le_trans (by simp) hroom) he).label
        hqM (by simp [hplaceM]) rfl hok₃ (hL ▸ hroom))

/-- The head of a loop: its label only moves on, to the code of the
    condition. -/
theorem loop_head {e : Emitter} {f : Frame} {s : GenState} {env : Env}
    (hat : At f { s with emitter := e.newLabel.2.newLabel.2 } env)
    (hpre : (e.newLabel.2.newLabel.2.place e.bound.size).code.toList <+: f.code.instructions.toList)
    (m : State) (cs : List Frame) :
    Moves m (f :: cs) 1 m ({ f with pc := (e.newLabel.2.newLabel.2.place e.bound.size).code.size } :: cs) ∧
      At { f with pc := (e.newLabel.2.newLabel.2.place e.bound.size).code.size }
        { s with emitter := e.newLabel.2.newLabel.2.place e.bound.size } env := by
  have hfree : e.newLabel.2.newLabel.2.bound[e.bound.size]? = some false := by
    rw [Emitter.newLabel_bound, Emitter.newLabel_bound, Array.getElem?_push_lt (by simp),
      Array.getElem_push_eq]
  have hplace := Emitter.place_code_of_fresh hfree
  have hpc : f.pc = e.newLabel.2.newLabel.2.code.size := hat.pc
  have hcode : CodeAt f.code.instructions.toList f.pc [.label e.bound.size] :=
    hpc ▸ CodeAt.of_append (by simpa [hplace] using hpre)
  refine ⟨?_, ⟨rfl, hat.mirror, hat.scope, hat.room⟩⟩
  rw [hplace, Array.size_push, ← hpc]
  exact Moves.label hcode.fetch

/-- A loop from the start of its condition: the exit when the condition fails,
    and when it holds the body, then back to the head for the next round. -/
theorem loop_sim (hc : GlobalCtx c) (hcalls : CallsOk c.table c.owner.name n m lv)
    (hloops : LoopsOk c n m lv) {cond : Expr} {body : Block} {sp : Span} (hcond : FragExpr vars cond)
    (hbodyF : FragBlock vars body) (hbody : BlockShape c body vars) (ihbody : BlockSim c n m lv vars body)
    {f : Frame} {cs : List Frame} {s s' : GenState} {env : Env} (h : stmt (.while cond body sp) c s = .ok ((), s'))
    (hat : At f { s with
      emitter := (s.emitter.setLine sp.line).newLabel.2.newLabel.2.place (s.emitter.setLine sp.line).bound.size }
      env)
    (hin : ∀ x ∈ vars, (s.scope.lookup? x).isSome) (hlab : LabelsOnce f.code)
    (hpre : s'.emitter.code.toList <+: f.code.instructions.toList) (hroom : s'.scope.next ≤ f.locals.size) :
    StmtAnswer n m c.method.ret f cs s' (execStmt lv env (.while cond body sp)) := by
  obtain ⟨s₁, s₂, hc₁, hb, hs'⟩ := stmt_while_ok h
  obtain ⟨g₁, sc₁⟩ := expr_keeps hc hcond hc₁ hin
  have hin₁ : ∀ x ∈ vars, (s₁.scope.lookup? x).isSome := by rwa [sc₁]
  obtain ⟨g₂, hok₂, hx₂, -⟩ := hbody hb (sc₁ ▸ hat.scope) hin₁
  have hvars₂ : s₂.scope.vars = s.scope.vars := by simpa [sc₁] using hx₂.vars
  -- the exit label is still free after the body
  have hX : s₂.emitter.bound[(s.emitter.setLine sp.line).bound.size + 1]? = some false := by
    rw [((g₁.trans (Grows.jump _ _)).trans g₂).bound_keep _ (by simp), Emitter.place_bound_ne (by omega)]
    simp [Array.getElem_push]
  have hplaceX := Emitter.place_code_of_fresh (e := s₂.emitter.jump .goto (s.emitter.setLine sp.line).bound.size) hX
  subst hs'
  -- the code after the body: the jump back, then the exit label
  have hcodeX : ((s₂.emitter.jump .goto (s.emitter.setLine sp.line).bound.size).place
      ((s.emitter.setLine sp.line).bound.size + 1)).code.toList =
      s₂.emitter.code.toList ++
        [.jump .goto (s.emitter.setLine sp.line).bound.size, .label ((s.emitter.setLine sp.line).bound.size + 1)] := by
    rw [hplaceX]
    simp
  have hpreX : s₂.emitter.code.toList ++
      [.jump .goto (s.emitter.setLine sp.line).bound.size, .label ((s.emitter.setLine sp.line).bound.size + 1)] <+:
      f.code.instructions.toList := by
    rw [← hcodeX]
    exact hpre
  have hjumps := CodeAt.of_append hpreX
  have hpre₂ : s₂.emitter.code.toList <+: f.code.instructions.toList := (List.prefix_append _ _).trans hpreX
  have hj : (s₁.emitter.code.push (.jump .ifeq ((s.emitter.setLine sp.line).bound.size + 1))).toList <+:
      f.code.instructions.toList :=
    g₂.prefix_.trans hpre₂
  have hjump : CodeAt f.code.instructions.toList s₁.emitter.code.size
      [.jump .ifeq ((s.emitter.setLine sp.line).bound.size + 1)] :=
    CodeAt.of_append (by simpa using hj)
  have hpre₁ : s₁.emitter.code.toList <+: f.code.instructions.toList := List.IsPrefix.trans (by simp) hj
  -- the head label, where the jump back goes
  have hfree : (s.emitter.setLine sp.line).newLabel.2.newLabel.2.bound[(s.emitter.setLine sp.line).bound.size]? =
      some false := by
    simp [Array.getElem?_push, Array.getElem_push]
  have hcodeH : ((s.emitter.setLine sp.line).newLabel.2.newLabel.2.place
      (s.emitter.setLine sp.line).bound.size).code.toList =
      (s.emitter.setLine sp.line).code.toList ++ [.label (s.emitter.setLine sp.line).bound.size] := by
    rw [Emitter.place_code_of_fresh hfree]
    simp
  have hH : CodeAt f.code.instructions.toList (s.emitter.setLine sp.line).code.size
      [.label (s.emitter.setLine sp.line).bound.size] := by
    refine CodeAt.of_append ?_
    rw [← hcodeH]
    exact g₁.prefix_.trans hpre₁
  have hroom₂ : s₂.scope.next ≤ f.locals.size := by simpa using hroom
  rw [execStmt]
  refine Answer.test (expr_sim hc hcalls hcond hat hin hlab hpre₁ hc₁) hjump hjumps.tail hlab (fun _ hs => hs) ?_ ?_
  · -- the condition holds: the body, then back to the head
    intro env₁ k L hL hat₁ hmv
    show StmtAnswer _ _ _ _ _ _ (execBlock lv env₁ body >>= _)
    have hat₁' : At { f with pc := s₁.emitter.code.size + 1, locals := L }
        { s₁ with emitter := s₁.emitter.jump .ifeq ((s.emitter.setLine sp.line).bound.size + 1) } env₁ :=
      ⟨by simp, hat₁.mirror, hat₁.scope, hat₁.room⟩
    refine StmtAnswer.of_moves hL hmv ?_
    refine StmtAnswer.bind (ihbody hat₁' hin₁ hlab hpre₂ (hL ▸ hroom₂) hb) (fun _ => rfl) ?_
    intro env₂ k₂ L₂ hL₂ hmv₂ hat₂
    have hback : Moves m ({ f with pc := s₂.emitter.code.size, locals := L₂ } :: cs) 1 m
        ({ f with pc := (s.emitter.setLine sp.line).code.size, locals := L₂ } :: cs) :=
      Moves.jump_taken (CodeAt.fetch (f := { f with pc := s₂.emitter.code.size, locals := L₂ }) hjumps.head)
        branch_goto hH hlab
    have hhead : At { f with pc := (s.emitter.setLine sp.line).code.size, locals := L₂ }
        { s with emitter := (s.emitter.setLine sp.line).newLabel.2.newLabel.2 } env₂ :=
      ⟨by simp, hvars₂ ▸ hat₂.mirror, hat.scope, by simpa [hL₂, hL] using hat.room⟩
    exact StmtAnswer.of_moves hL₂ (hmv₂.trans hback)
      (hloops hcond hbodyF h hhead hin hlab hpre (by simpa [hL₂, hL] using hroom))
  · -- the condition fails: the exit
    intro env₁ k L hL hat₁ hmv
    show StmtAnswer _ _ _ _ _ _ (.ok (.normal env₁))
    have hsize : ((s₂.emitter.jump .goto (s.emitter.setLine sp.line).bound.size).place
        ((s.emitter.setLine sp.line).bound.size + 1)).code.size = s₂.emitter.code.size + 1 + 1 := by
      simpa using congrArg List.length hcodeX
    refine ⟨k, L, hL, by rw [hsize]; exact hmv, rfl, ?_, hok₂, by simpa [hL] using hroom⟩
    simpa [hvars₂, sc₁] using hat₁.mirror

/-- The head of a loop's code stands in the code of the whole loop. -/
theorem while_head_within (hc : GlobalCtx c) {cond : Expr} {body : Block} {sp : Span}
    (hcond : FragExpr vars cond) (hbody : BlockShape c body vars) {s s' : GenState}
    (h : stmt (.while cond body sp) c s = .ok ((), s')) (hok : ScopeOk s.scope)
    (hin : ∀ x ∈ vars, (s.scope.lookup? x).isSome) :
    ((s.emitter.setLine sp.line).newLabel.2.newLabel.2.place (s.emitter.setLine sp.line).bound.size).code.toList <+:
      s'.emitter.code.toList := by
  obtain ⟨s₁, s₂, hc₁, hb, rfl⟩ := stmt_while_ok h
  obtain ⟨g₁, sc₁⟩ := expr_keeps hc hcond hc₁ hin
  obtain ⟨g₂, -⟩ := hbody hb (sc₁ ▸ hok) (by rwa [sc₁])
  exact (((g₁.trans (Grows.jump _ _)).trans g₂).trans (Grows.jump _ _)).prefix_.trans
    (Emitter.prefix_place _)

theorem sim_while (hc : GlobalCtx c) (hcalls : CallsOk c.table c.owner.name n m lv)
    (hloops : LoopsOk c n m lv) {cond : Expr} {body : Block} {sp : Span} (hcond : FragExpr vars cond)
    (hbodyF : FragBlock vars body) (hbody : BlockShape c body vars) (ihbody : BlockSim c n m lv vars body) :
    StmtSim c n m lv vars (.while cond body sp) := by
  intro f cs s s' env hat hin hlab hpre hroom h
  have hpre₀ := (while_head_within hc hcond hbody h hat.scope hin).trans hpre
  have hpreL : (s.emitter.setLine sp.line).code.toList <+: f.code.instructions.toList :=
    (Emitter.prefix_place (e := (s.emitter.setLine sp.line).newLabel.2.newLabel.2) _).trans hpre₀
  obtain ⟨k₀, hmv₀, hat₀⟩ := hat.setLine hpreL m cs
  -- making the two labels writes no code, so the frame is at the head
  have hhead : At { f with pc := (s.emitter.setLine sp.line).code.size }
      { s with emitter := (s.emitter.setLine sp.line).newLabel.2.newLabel.2 } env :=
    ⟨hat₀.pc, hat₀.mirror, hat₀.scope, hat₀.room⟩
  obtain ⟨hmv₁, hat₁⟩ := loop_head hhead hpre₀ m cs
  exact StmtAnswer.of_moves rfl (hmv₀.trans hmv₁) (loop_sim hc hcalls hloops hcond hbodyF hbody ihbody h hat₁ hin hlab
    hpre hroom)

mutual

/-- Every statement of the fragment runs on the machine as the source runs it,
    at any level whose calls and loops do. -/
theorem stmt_sim (hc : GlobalCtx c) (hcalls : CallsOk c.table c.owner.name n m lv) (hloops : LoopsOk c n m lv)
    {vars vars' : List String} {S : Stmt} (h : FragStmt vars S vars') : StmtSim c n m lv vars S :=
  match h with
  | .expr he => sim_expr hc hcalls he
  | .letDecl hty he => sim_let hc hcalls hty he
  | .ret hv => sim_ret hc hcalls hv
  | .block hb => sim_block (block_shape hc hb) (block_sim hc hcalls hloops hb)
  | .ifThen hcond hb => sim_if hc hcalls hcond (block_shape hc hb) (block_sim hc hcalls hloops hb) (by simp)
  | .ifElse hcond hb he => sim_if hc hcalls hcond (block_shape hc hb) (block_sim hc hcalls hloops hb)
      (fun _ hmem => by cases hmem; exact ⟨stmt_shape hc he, stmt_sim hc hcalls hloops he⟩)
  | .while hcond hb => sim_while hc hcalls hloops hcond hb (block_shape hc hb) (block_sim hc hcalls hloops hb)

theorem block_sim (hc : GlobalCtx c) (hcalls : CallsOk c.table c.owner.name n m lv) (hloops : LoopsOk c n m lv)
    {vars : List String} {b : Block} (h : FragBlock vars b) : BlockSim c n m lv vars b :=
  match h with
  | .mk hs => block_sim_mk (stmts_shape hc hs) (stmts_sim hc hcalls hloops hs)

theorem stmts_sim (hc : GlobalCtx c) (hcalls : CallsOk c.table c.owner.name n m lv) (hloops : LoopsOk c n m lv)
    {vars vars' : List String} {stmts : List Stmt} (h : FragStmts vars stmts vars') : StmtsSim c n m lv vars stmts :=
  match h with
  | .nil => stmts_sim_nil
  | .cons h₁ h₂ => stmts_sim_cons (stmt_shape hc h₁) (stmts_shape hc h₂) (stmt_sim hc hcalls hloops h₁)
      (stmts_sim hc hcalls hloops h₂)

end

end Stmt

end ClassCompiler.Primitive
