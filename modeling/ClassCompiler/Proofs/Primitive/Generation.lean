import ClassCompiler.Proofs.Primitive.Operators
import ClassCompiler.Proofs.Codegen.Layout

/-!
# Code generation for primitive programs

What the expression and statement compiler emits for each construct of the
primitive fragment, read off a successful run of the generator. Each lemma
takes a run of one construct apart into the runs of its parts and the
instructions appended after them, so that the proofs about the generated code
never unfold the generator.

* `Emitter.foldl_emit`, `Emitter.place_fresh`, `compareCode`: the emitter
  operations the fragment uses, as appended instructions;
* `resolveKnown_prim`: a written primitive type is the compiler's type of it;
* `binary_ok`, `unary_ok`, `cast_prim_ok`, `assignTarget_local`,
  `bareCall_global`: the operators, casts, assignment targets and calls.
-/

namespace ClassCompiler

open Syntax Machine Primitive


/-- The code of a comparison: the instructions before the jump, then the jump
    to `L` with 0 pushed if not taken, 1 at `L`, both ending at `M`. -/
def compareCode (e : Emitter) (pre : List Opcode) (jump : Opcode) : Emitter :=
  let e := pre.foldl Emitter.emit e
  let onTrue := e.bound.size
  let e := e.newLabel.2
  let stop := e.bound.size
  let e := e.newLabel.2
  ((((e.jump jump onTrue).emit .iconst0).jump .goto stop).place onTrue |>.emit .iconst1).place stop

theorem compareCode_code (e : Emitter) (pre : List Opcode) (jump : Opcode) :
    (compareCode e pre jump).code.toList = e.code.toList ++ pre.map Instruction.simple ++
      [.jump jump e.bound.size, .simple .iconst0, .jump .goto (e.bound.size + 1), .label e.bound.size,
        .simple .iconst1, .label (e.bound.size + 1)] := by
  have hsize : (pre.foldl Emitter.emit e).bound = e.bound := by simp [Emitter.foldl_emit]
  have hcode : (pre.foldl Emitter.emit e).code.toList = e.code.toList ++ pre.map .simple := by
    simp [Emitter.foldl_emit]
  simp only [compareCode]
  generalize pre.foldl Emitter.emit e = e₁ at hsize hcode ⊢
  rw [← hsize, Emitter.place_code_of_fresh, Emitter.emit_code, Array.toList_push,
    Emitter.place_code_of_fresh]
  · simp [hcode]
  · rw [Emitter.jump_bound, Emitter.emit_bound, Emitter.jump_bound, Emitter.newLabel_bound,
      Emitter.newLabel_bound, Array.getElem?_push, if_neg (by simp), Array.getElem?_push_size]
  · rw [Emitter.emit_bound, Emitter.place_bound_ne (by simp)]
    simp [Array.getElem_push]

/-- Operand-free instructions only append. -/
theorem Grows.emits {s : GenState} (ops : List Opcode) :
    Grows s { s with emitter := ops.foldl Emitter.emit s.emitter } := by
  induction ops generalizing s with
  | nil => exact Grows.refl s
  | cons op ops ih =>
    exact (Grows.push (i := .simple op) fun _ => Instruction.noConfusion).trans ih

theorem Grows.compareCode {s : GenState} (pre : List Opcode) (jump : Opcode) :
    Grows s { s with emitter := compareCode s.emitter pre jump } := by
  have hsize : (pre.foldl Emitter.emit s.emitter).bound.size = s.emitter.bound.size := by
    simp [Emitter.foldl_emit]
  have h := ((((Grows.emits (s := s) pre).trans Grows.newLabel).trans Grows.newLabel).trans
    (Grows.push (i := .jump jump (pre.foldl Emitter.emit s.emitter).bound.size)
      fun _ => Instruction.noConfusion)).trans
    (Grows.push (i := .simple .iconst0) fun _ => Instruction.noConfusion)
  have h := (h.trans (Grows.push
    (i := .jump .goto (pre.foldl Emitter.emit s.emitter).newLabel.2.bound.size)
    fun _ => Instruction.noConfusion)).place_new (l := (pre.foldl Emitter.emit s.emitter).bound.size)
    (by omega)
  have h := (h.trans (Grows.push (i := .simple .iconst1) fun _ => Instruction.noConfusion)).place_new
    (l := (pre.foldl Emitter.emit s.emitter).newLabel.2.bound.size) (by simp; omega)
  exact h

/-! ### Written primitive types -/

theorem PTy.ofName?_builtin {n : String} {p : PTy} (h : PTy.ofName? n = some p) :
    Ty.ofBuiltinName? n = some p.ty := by
  unfold PTy.ofName? at h
  split at h <;> cases h <;> rfl

/-- A written primitive type resolves to itself, whatever the aliases. -/
theorem Resolver.resolve_prim (r : Resolver) {t : TypeExpr} {p : PTy} (h : PTy.ofTypeExpr? t = some p) :
    r.resolve t = p.ty := by
  unfold PTy.ofTypeExpr? at h
  split at h
  · rename_i hdims
    simp [Resolver.resolve, hdims, Resolver.base, PTy.ofName?_builtin h, Nat.repeat]
  · cases h

theorem MethodContext.resolveKnown_prim (c : MethodContext) {t : TypeExpr} {p : PTy}
    (h : PTy.ofTypeExpr? t = some p) : c.resolveKnown t = .ok p.ty := by
  have hbase : MethodContext.baseType p.ty = p.ty := by cases p <;> rfl
  simp only [MethodContext.resolveKnown, Resolver.resolve_prim _ h, hbase]
  cases p <;> rfl

/-! ### Runs of the generator, construct by construct -/

namespace Gen

variable {c : MethodContext} {s s' : GenState} {t : Ty}

theorem literal_int_ok {v : Int32} :
    literal (.int v) c s = .ok (t, s') ↔ t = .int ∧ s' = { s with emitter := s.emitter.push (intConst v) } := by
  simp only [literal, bind_ok, out_ok, pure_ok, Emitter.emitInt_eq]
  constructor
  · rintro ⟨_, _, rfl, rfl, rfl⟩
    exact ⟨rfl, rfl⟩
  · rintro ⟨rfl, rfl⟩
    exact ⟨(), _, rfl, rfl, rfl⟩

theorem literal_long_ok {v : Int64} :
    literal (.long v) c s = .ok (t, s') ↔ t = .long ∧ s' = { s with emitter := s.emitter.push (longConst v) } := by
  simp only [literal, bind_ok, out_ok, pure_ok, Emitter.emitLong_eq]
  constructor
  · rintro ⟨_, _, rfl, rfl, rfl⟩
    exact ⟨rfl, rfl⟩
  · rintro ⟨rfl, rfl⟩
    exact ⟨(), _, rfl, rfl, rfl⟩

theorem literal_bool_ok {b : Bool} :
    literal (.bool b) c s = .ok (t, s') ↔
      t = .bool ∧ s' = { s with emitter := s.emitter.emit (if b then .iconst1 else .iconst0) } := by
  simp only [literal, bind_ok, out_ok, pure_ok, Emitter.emitBool]
  constructor
  · rintro ⟨_, _, rfl, rfl, rfl⟩
    exact ⟨rfl, rfl⟩
  · rintro ⟨rfl, rfl⟩
    exact ⟨(), _, rfl, rfl, rfl⟩

/-- A name in scope is a load of its slot. -/
theorem identifier_local {id : Ident} {v : LocalVar} (hv : s.scope.lookup? id.name = some v) :
    identifier id c s = .ok (t, s') ↔ t = v.ty ∧ s' = { s with emitter := s.emitter.load v.ty v.slot } := by
  simp only [identifier, bind_ok, read_ok, get_ok]
  constructor
  · rintro ⟨_, _, ⟨rfl, rfl⟩, _, _, ⟨rfl, rfl⟩, h⟩
    simp only [hv, bind_ok, out_ok, pure_ok] at h
    obtain ⟨_, _, rfl, rfl, rfl⟩ := h
    exact ⟨rfl, rfl⟩
  · rintro ⟨rfl, rfl⟩
    refine ⟨c, s, ⟨rfl, rfl⟩, s, s, ⟨rfl, rfl⟩, ?_⟩
    simp only [hv, bind_ok, out_ok, pure_ok]
    exact ⟨(), _, rfl, by simp⟩

theorem unary_ok {op : UnOp} {a : Ty} {sp : Span} (h : unary op a sp c s = .ok (t, s')) :
    (op = .neg ∧ ∃ code, Rules.negate a = some (code, t) ∧ s' = { s with emitter := s.emitter.emit code }) ∨
    (op = .not ∧ a = .bool ∧ t = .bool ∧
      s' = { s with emitter := (s.emitter.emit .iconst1).emit .ixor }) := by
  cases op with
  | neg =>
    simp only [unary] at h
    cases hr : Rules.negate a with
    | none =>
      simp only [hr] at h
      exact absurd h mismatch_ne
    | some p =>
      obtain ⟨code, r⟩ := p
      simp only [hr, bind_ok, out_ok, pure_ok] at h
      obtain ⟨_, _, rfl, rfl, rfl⟩ := h
      exact .inl ⟨rfl, code, rfl, rfl⟩
  | not =>
    simp only [unary, bind_ok, expectBool_ok, out_ok, pure_ok] at h
    obtain ⟨_, _, ⟨rfl, rfl⟩, _, _, rfl, rfl, rfl⟩ := h
    exact .inr ⟨rfl, rfl, rfl, rfl⟩

theorem binary_ok {op : BinOp} {l r : Ty} {sp : Span} (h : binary op l r sp c s = .ok (t, s')) :
    (op.isLogical = true ∧ l = .bool ∧ r = .bool ∧ t = .bool ∧
      s' = { s with emitter := s.emitter.emit (if op == .and then .iand else .ior) }) ∨
    (∃ cmp pre jump, op.isLogical = false ∧ op.comparison? = some cmp ∧
      Rules.compare cmp l r = some (pre, jump) ∧ t = .bool ∧
      s' = { s with emitter := compareCode s.emitter pre jump }) ∨
    (∃ ar code, op.isLogical = false ∧ op.comparison? = none ∧ op.arith? = some ar ∧
      Rules.arith ar l r = some (code, t) ∧ s' = { s with emitter := s.emitter.emit code }) := by
  unfold binary at h
  by_cases hl : op.isLogical = true
  · rw [if_pos hl] at h
    simp only [bind_ok, expectBool_ok, out_ok, pure_ok] at h
    obtain ⟨_, _, ⟨rfl, rfl⟩, _, _, ⟨rfl, rfl⟩, _, _, rfl, rfl, rfl⟩ := h
    exact .inl ⟨hl, rfl, rfl, rfl, rfl⟩
  · rw [if_neg hl] at h
    have hl' : op.isLogical = false := by simpa using hl
    cases hc : op.comparison? with
    | some cmp =>
      simp only [hc] at h
      cases hr : Rules.compare cmp l r with
      | none =>
        simp only [hr] at h
        exact absurd h mismatch_ne
      | some p =>
        obtain ⟨pre, jump⟩ := p
        simp only [hr, bind_ok, out_ok, newLabel_ok, pure_ok] at h
        obtain ⟨_, _, rfl, _, _, ⟨rfl, rfl⟩, _, _, ⟨rfl, rfl⟩, _, _, rfl, rfl, rfl⟩ := h
        exact .inr (.inl ⟨cmp, pre, jump, hl', rfl, hr, rfl, rfl⟩)
    | none =>
      simp only [hc] at h
      cases ha : op.arith? with
      | none =>
        simp only [ha, Option.bind_none] at h
        exact absurd h mismatch_ne
      | some ar =>
        cases hr : Rules.arith ar l r with
        | none =>
          simp only [ha, hr, Option.bind_some] at h
          exact absurd h mismatch_ne
        | some p =>
          obtain ⟨code, t'⟩ := p
          simp only [ha, hr, Option.bind_some, bind_ok, out_ok, pure_ok] at h
          obtain ⟨_, _, rfl, rfl, rfl⟩ := h
          exact .inr (.inr ⟨ar, code, hl', rfl, rfl, hr, rfl⟩)

/-- The code of an operator only appends, and leaves the scope alone. -/
theorem binary_grows {op : BinOp} {l r : Ty} {sp : Span} (h : binary op l r sp c s = .ok (t, s')) :
    Grows s s' ∧ s'.scope = s.scope := by
  rcases binary_ok h with ⟨_, _, _, _, rfl⟩ | ⟨_, pre, jump, _, _, _, _, rfl⟩ | ⟨_, code, _, _, _, _, rfl⟩
  · exact ⟨Grows.push fun _ => Instruction.noConfusion, rfl⟩
  · exact ⟨Grows.compareCode pre jump, rfl⟩
  · exact ⟨Grows.push fun _ => Instruction.noConfusion, rfl⟩

/-- A cast to a primitive type: nothing when the operand has that type, the
    conversion from a numeric type, and no other. -/
theorem cast_prim_ok {a : Ty} {p : PTy} {sp : Span} (h : cast p.ty a sp c s = .ok (t, s')) :
    t = p.ty ∧ ((a = p.ty ∧ s' = s) ∨
      (a ≠ p.ty ∧ a.isNumeric ∧ p.ty.isNumeric ∧
        s' = { s with emitter := (Rules.conversion a p.ty).foldl Emitter.emit s.emitter })) := by
  unfold cast at h
  split at h
  · rename_i heq
    rw [pure_ok] at h
    exact ⟨h.1, .inl ⟨by simpa using heq, h.2⟩⟩
  · rename_i hne
    have hne' : a ≠ p.ty := fun h => by simp [h] at hne
    split at h
    · rename_i hn
      simp only [bind_ok, out_ok, pure_ok] at h
      obtain ⟨_, _, rfl, rfl, rfl⟩ := h
      simp only [Bool.and_eq_true] at hn
      exact ⟨rfl, .inr ⟨hne', hn.1, hn.2, rfl⟩⟩
    · -- a primitive type is no reference, so any other cast is refused
      have href : p.ty.isReference = false := by cases p <;> rfl
      simp only [href, Bool.and_false, Bool.false_eq_true, if_false, bind_ok] at h
      obtain ⟨_, _, hfail, _⟩ := h
      exact absurd hfail fail_ne

/-! ### Expressions construct by construct -/

theorem expr_lit {l : Literal} {sp : Span} : expr (.lit l sp) c s = literal l c s := by
  rw [expr]

theorem expr_ident {id : Ident} : expr (.ident id) c s = identifier id c s := by
  rw [expr]

theorem expr_paren {e : Expr} {sp : Span} : expr (.paren e sp) c s = expr e c s := by
  rw [expr]

theorem expr_unary_ok {op : UnOp} {e : Expr} {sp : Span} (h : expr (.unary op e sp) c s = .ok (t, s')) :
    ∃ a s₁, expr e c s = .ok (a, s₁) ∧ a ≠ .void ∧ a.isTypeRef = false ∧
      unary op a sp c s₁ = .ok (t, s') := by
  rw [expr] at h
  simp only [bind_ok, requireValue_ok] at h
  obtain ⟨_, _, he, _, _, ⟨rfl, rfl, hv, hr⟩, hu⟩ := h
  exact ⟨_, _, he, hv, hr, hu⟩

theorem expr_binary_ok {op : BinOp} {l r : Expr} {sp : Span}
    (h : expr (.binary op l r sp) c s = .ok (t, s')) :
    ∃ a s₁ b s₂, expr l c s = .ok (a, s₁) ∧ a ≠ .void ∧ a.isTypeRef = false ∧
      expr r c s₁ = .ok (b, s₂) ∧ b ≠ .void ∧ b.isTypeRef = false ∧
      binary op a b sp c s₂ = .ok (t, s') := by
  rw [expr] at h
  simp only [bind_ok, requireValue_ok] at h
  obtain ⟨_, _, hl, _, _, ⟨rfl, rfl, hav, har⟩, _, _, hr, _, _, ⟨rfl, rfl, hbv, hbr⟩, hb⟩ := h
  exact ⟨_, _, _, _, hl, hav, har, hr, hbv, hbr, hb⟩

theorem expr_assign_ok {target value : Expr} {sp : Span}
    (h : expr (.assign target value sp) c s = .ok (t, s')) :
    ∃ lv s₁ v s₂, assignTarget target c s = .ok (lv, s₁) ∧ expr value c s₁ = .ok (v, s₂) ∧
      v ≠ .void ∧ v.isTypeRef = false ∧ lv.ty.accepts v = true ∧ storeTo lv c s₂ = .ok ((), s') ∧
      t = .void := by
  rw [expr] at h
  simp only [bind_ok, requireValue_ok] at h
  obtain ⟨lv, s₁, hlv, _, _, hv, _, _, ⟨rfl, rfl, hvv, hvr⟩, h⟩ := h
  split at h
  · rename_i ha
    simp only [bind_ok, pure_ok] at h
    obtain ⟨_, _, hst, rfl, rfl⟩ := h
    exact ⟨lv, s₁, _, _, hlv, hv, hvv, hvr, ha, hst, rfl⟩
  · simp only [bind_ok] at h
    obtain ⟨_, _, hm, _⟩ := h
    exact absurd hm mismatch_ne

theorem expr_call_ok {callee : Ident} {args : List Expr} {sp : Span}
    (h : expr (.call callee args sp) c s = .ok (t, s')) :
    ∃ ts s₁, arguments args c s = .ok (ts, s₁) ∧
      bareCall callee.name ts s.emitter.code.size sp c s₁ = .ok (t, s') := by
  rw [expr] at h
  simp only [bind_ok, mark_ok] at h
  obtain ⟨_, _, ⟨rfl, rfl⟩, ts, s₁, hargs, hcall⟩ := h
  exact ⟨ts, s₁, hargs, hcall⟩

theorem expr_cast_ok {target : TypeExpr} {e : Expr} {sp : Span}
    (h : expr (.cast target e sp) c s = .ok (t, s')) :
    ∃ ty a s₁, c.resolveKnown target = .ok ty ∧ expr e c s = .ok (a, s₁) ∧ a ≠ .void ∧
      a.isTypeRef = false ∧ cast ty a sp c s₁ = .ok (t, s') := by
  rw [expr] at h
  simp only [bind_ok, requireValue_ok, resolveKnown, read_ok, liftExcept_ok] at h
  obtain ⟨_, _, ⟨_, _, ⟨rfl, rfl⟩, hty, rfl⟩, _, _, he, _, _, ⟨rfl, rfl, hav, har⟩, hc⟩ := h
  exact ⟨_, _, _, hty, he, hav, har, hc⟩

theorem arguments_nil_ok {ts : List Ty} : arguments [] c s = .ok (ts, s') ↔ ts = [] ∧ s' = s := by
  rw [arguments]
  exact pure_ok

theorem arguments_cons_ok {a : Expr} {rest : List Expr} {ts : List Ty}
    (h : arguments (a :: rest) c s = .ok (ts, s')) :
    ∃ t s₁ ts', expr a c s = .ok (t, s₁) ∧ t ≠ .void ∧ t.isTypeRef = false ∧
      arguments rest c s₁ = .ok (ts', s') ∧ ts = t :: ts' := by
  rw [arguments] at h
  simp only [bind_ok, requireValue_ok, pure_ok] at h
  obtain ⟨_, _, ha, _, _, ⟨rfl, rfl, htv, htr⟩, _, _, hrest, rfl, rfl⟩ := h
  exact ⟨_, _, _, ha, htv, htr, hrest, rfl⟩

/-! ### Assignment targets and calls -/

theorem storeTo_local {slot : Nat} {ty : Ty} :
    storeTo (.local slot ty) c s = .ok ((), s') ↔ s' = { s with emitter := s.emitter.store ty slot } := by
  rw [storeTo]
  exact out_ok

/-- A target of the fragment is a local variable, named without any code. -/
theorem assignTarget_local {vars : List String} {target : Expr} {lv : LValue}
    (ht : LocalTarget vars target) (hin : ∀ x ∈ vars, (s.scope.lookup? x).isSome)
    (h : assignTarget target c s = .ok (lv, s')) :
    s' = s ∧ ∃ x v, targetName target = .ok x ∧ s.scope.lookup? x = some v ∧ lv = .local v.slot v.ty := by
  induction ht with
  | ident hx =>
    rename_i id
    obtain ⟨v, hv⟩ := Option.isSome_iff_exists.1 (hin _ hx)
    rw [assignTarget] at h
    simp only [identTarget, bind_ok, read_ok, get_ok] at h
    obtain ⟨_, _, ⟨rfl, rfl⟩, _, _, ⟨rfl, rfl⟩, h⟩ := h
    simp only [hv, pure_ok] at h
    obtain ⟨rfl, rfl⟩ := h
    exact ⟨rfl, id.name, v, rfl, hv, rfl⟩
  | paren _ ih =>
    rw [assignTarget] at h
    exact ih h

/-- The context of the body of a global function: a static method, of a
    class that is not an adapter, which is the holder of its file. -/
structure GlobalCtx (c : MethodContext) : Prop where
  static : c.method.isStatic = true
  plain : c.owner.adapter = none
  holder : ∀ h ∈ c.holder, h.name = c.owner.name

/-- Without instance methods allowed, only a static method is found. -/
theorem findCallable_static {tbl : ClassTable} {owner name : String} {ts : List Ty} {d : TypeDecl}
    {m : MethodSig} (h : findCallable? tbl owner name ts false = some (d, m)) : m.isStatic = true := by
  obtain ⟨d', _, hd'⟩ := List.exists_of_findSome?_eq_some h
  obtain ⟨m', hm', hpair⟩ := Option.map_eq_some_iff.1 hd'
  cases hpair
  have := List.find?_some hm'
  simp only [Bool.false_or, Bool.and_eq_true] at this
  exact this.1.2

/-- A bare call in a global function is a static call of the first static
    method of the holder or its superclasses that fits the arguments. -/
theorem bareCall_global (hc : GlobalCtx c) {name : String} {ts : List Ty} {mark : Nat} {sp : Span}
    (h : bareCall name ts mark sp c s = .ok (t, s')) :
    ∃ d m, findCallable? c.table c.owner.name name ts false = some (d, m) ∧ m.isStatic = true ∧
      t = m.ret ∧ s' = { s with emitter := s.emitter.push (invokeInstruction d m) } := by
  simp only [bareCall, bind_ok, read_ok] at h
  obtain ⟨_, _, ⟨hc', hs'⟩, h⟩ := h
  rw [hc', hs'] at h
  simp only [MethodContext.adapter?, hc.plain, MethodContext.isStatic, hc.static, Bool.not_true] at h
  cases hf : findCallable? c.table c.owner.name name ts false with
  | none =>
    -- the holder is the class itself, so no other class is tried
    simp only [hf, bind_ok, pure_ok] at h
    obtain ⟨_, _, ⟨rfl, rfl⟩, h⟩ := h
    cases hh : c.holder with
    | none =>
      simp only [hh] at h
      exact absurd h fail_ne
    | some hd =>
      have hname := hc.holder hd (by simp [hh])
      simp only [hh, hname, bne_self_eq_false, Bool.false_eq_true, if_false] at h
      exact absurd h fail_ne
  | some p =>
    obtain ⟨d, m⟩ := p
    have hs := findCallable_static hf
    simp only [hf, hs, emitInvoke] at h
    obtain ⟨_, _, rfl, _, _, ⟨rfl, rfl⟩, rfl, rfl⟩ := h
    exact ⟨d, m, rfl, hs, rfl, rfl⟩

/-! ### Statements construct by construct

The generator's equation for each kind of statement holds by unfolding;
stated here, it spares deriving the equation lemmas of the whole mutual
generator, which is slow. -/

theorem stmt_expr_eq (e : Expr) (sp : Span) : stmt (.expr e sp) = (do
    out (·.setLine (Stmt.expr e sp).span.line)
    let t ← expr e
    unless t.isTypeRef do out (·.pop t)) := rfl

theorem stmt_letDecl_eq (name : Ident) (ty : Option TypeExpr) (init : Expr) (sp : Span) :
    stmt (.letDecl name ty init sp) = (do
      out (·.setLine (Stmt.letDecl name ty init sp).span.line)
      let declared ← match ty with
        | some t => some <$> resolveKnown t
        | none => pure none
      let i ← requireValue init.span (← expr init)
      declareLocal name declared i init.span sp) := rfl

theorem stmt_ret_eq (value : Option Expr) (sp : Span) : stmt (.ret value sp) = (do
    out (·.setLine (Stmt.ret value sp).span.line)
    let r := (← read).method.ret
    match value, r.isVoid with
    | some e, false =>
      let v ← requireValue e.span (← expr e)
      unless r.accepts v do mismatch (.badReturn v r) e.span
      out (·.emitReturn r)
    | none, true => out (·.emit .returnVoid)
    | some e, true => mismatch .valueFromVoid e.span
    | none, false => mismatch (.missingValue r) sp) := rfl

theorem stmt_block_eq (b : Block) : stmt (.block b) = (do
    out (·.setLine (Stmt.block b).span.line)
    block b) := rfl

theorem stmt_ifElse_eq (cond : Expr) (thenB : Block) (elseS : Option Stmt) (sp : Span) :
    stmt (.ifElse cond thenB elseS sp) = (do
      out (·.setLine (Stmt.ifElse cond thenB elseS sp).span.line)
      let c ← requireValue cond.span (← expr cond)
      expectBool .ifCondition c cond.span
      let elseL ← newLabel
      out (·.jump .ifeq elseL)
      block thenB
      match elseS with
      | some e =>
        let stop ← if thenB.alwaysReturns then pure none else do
          let l ← newLabel
          out (·.jump .goto l)
          pure (some l)
        out (·.place elseL)
        stmt e
        if let some l := stop then out (·.place l)
      | none => out (·.place elseL)) := by
  -- by unfolding once the else branch is known; with it unknown, unfolding is slow
  cases elseS with
  | none => rfl
  | some e => rfl

theorem stmt_while_eq (cond : Expr) (body : Block) (sp : Span) : stmt (.while cond body sp) = (do
    out (·.setLine (Stmt.while cond body sp).span.line)
    let head ← newLabel
    let exit ← newLabel
    out (·.place head)
    let c ← requireValue cond.span (← expr cond)
    expectBool .whileCondition c cond.span
    out (·.jump .ifeq exit)
    block body
    out fun e => (e.jump .goto head).place exit) := rfl

theorem stmt_expr_ok {e : Expr} {sp : Span} (h : stmt (.expr e sp) c s = .ok ((), s')) :
    ∃ t s₁, expr e c { s with emitter := s.emitter.setLine sp.line } = .ok (t, s₁) ∧
      s' = if t.isTypeRef then s₁ else { s₁ with emitter := s₁.emitter.pop t } := by
  rw [stmt_expr_eq] at h
  simp only [bind_ok, out_ok] at h
  obtain ⟨_, _, rfl, t, s₁, he, h⟩ := h
  refine ⟨t, s₁, he, ?_⟩
  split at h
  · rename_i ht
    simp only [ht, if_true]
    exact (pure_ok.1 h).2
  · rename_i ht
    simp only [ht, Bool.false_eq_true, if_false]
    exact out_ok.1 h

theorem declareLocal_ok {x : Ident} {declared : Option Ty} {init : Ty} {isp sp : Span}
    (h : declareLocal x declared init isp sp c s = .ok ((), s')) :
    ∃ slot sc, (∀ d ∈ declared, d.accepts init = true) ∧
      s.scope.declare x.name (declared.getD init) x.span = .ok (slot, sc) ∧
      s' = { emitter := s.emitter.store (declared.getD init) slot, scope := sc } := by
  unfold declareLocal at h
  cases declared with
  | none =>
    simp only [] at h
    split at h
    · simp only [bind_ok] at h
      obtain ⟨_, _, hm, _⟩ := h
      exact absurd hm mismatch_ne
    · simp only [bind_ok, pure_ok] at h
      obtain ⟨_, _, ⟨rfl, rfl⟩, slot, _, hslot, hst⟩ := h
      obtain ⟨sc, hsc, rfl⟩ := withScope_ok.1 hslot
      exact ⟨slot, sc, by simp, hsc, out_ok.1 hst⟩
  | some d =>
    simp only [] at h
    split at h
    · rename_i hacc
      simp only [bind_ok, pure_ok] at h
      obtain ⟨_, _, ⟨rfl, rfl⟩, slot, _, hslot, hst⟩ := h
      obtain ⟨sc, hsc, rfl⟩ := withScope_ok.1 hslot
      exact ⟨slot, sc, by simpa using hacc, hsc, out_ok.1 hst⟩
    · simp only [bind_ok] at h
      obtain ⟨_, _, hm, _⟩ := h
      exact absurd hm mismatch_ne


theorem stmt_let_ok {x : Ident} {ty : Option TypeExpr} {init : Expr} {sp : Span}
    (hty : ∀ t ∈ ty, (PTy.ofTypeExpr? t).isSome) (h : stmt (.letDecl x ty init sp) c s = .ok ((), s')) :
    ∃ i s₁, expr init c { s with emitter := s.emitter.setLine sp.line } = .ok (i, s₁) ∧
      i ≠ .void ∧ i.isTypeRef = false ∧
      declareLocal x (ty.bind fun t => (PTy.ofTypeExpr? t).map PTy.ty) i init.span sp c s₁ = .ok ((), s') := by
  rw [stmt_letDecl_eq] at h
  simp only [bind_ok, out_ok] at h
  obtain ⟨_, _, rfl, h⟩ := h
  cases ty with
  | none =>
    simp only [bind_ok, pure_ok, requireValue_ok] at h
    obtain ⟨_, _, ⟨rfl, rfl⟩, _, _, hi, _, _, ⟨rfl, rfl, hiv, hir⟩, hd⟩ := h
    exact ⟨_, _, hi, hiv, hir, hd⟩
  | some t =>
    -- a written type of the fragment resolves to itself, without changing the state
    obtain ⟨p, hp⟩ := Option.isSome_iff_exists.1 (hty t rfl)
    simp only [bind_ok, map_ok, resolveKnown_ok, MethodContext.resolveKnown_prim _ hp,
      requireValue_ok] at h
    obtain ⟨_, _, ⟨_, ⟨hr, rfl⟩, rfl⟩, _, _, hi, _, _, ⟨rfl, rfl, hiv, hir⟩, hd⟩ := h
    cases hr
    refine ⟨_, _, hi, hiv, hir, ?_⟩
    simpa [hp] using hd

theorem stmt_ret_ok {value : Option Expr} {sp : Span} (h : stmt (.ret value sp) c s = .ok ((), s')) :
    (value = none ∧ c.method.ret.isVoid = true ∧
      s' = { s with emitter := (s.emitter.setLine sp.line).emit .returnVoid }) ∨
    (∃ e v s₁, value = some e ∧ c.method.ret.isVoid = false ∧
      expr e c { s with emitter := s.emitter.setLine sp.line } = .ok (v, s₁) ∧
      v ≠ .void ∧ v.isTypeRef = false ∧ c.method.ret.accepts v = true ∧
      s' = { s₁ with emitter := s₁.emitter.emitReturn c.method.ret }) := by
  rw [stmt_ret_eq] at h
  simp only [bind_ok, out_ok, read_ok] at h
  obtain ⟨_, _, rfl, _, _, ⟨hc', hs'⟩, h⟩ := h
  rw [hc', hs'] at h
  cases value with
  | none =>
    cases hv : c.method.ret.isVoid
    · simp only [hv] at h
      exact absurd h mismatch_ne
    · simp only [hv] at h
      exact .inl ⟨rfl, rfl, out_ok.1 h⟩
  | some e =>
    cases hv : c.method.ret.isVoid
    · simp only [hv, bind_ok, requireValue_ok] at h
      obtain ⟨_, _, he, _, _, ⟨rfl, rfl, hvv, hvr⟩, h⟩ := h
      split at h
      · rename_i hacc
        exact .inr ⟨e, _, _, rfl, rfl, he, hvv, hvr, hacc, out_ok.1 h⟩
      · simp only [bind_ok] at h
        obtain ⟨_, _, hm, _⟩ := h
        exact absurd hm mismatch_ne
    · simp only [hv] at h
      exact absurd h mismatch_ne

theorem block_ok {stmts : List Stmt} {sp : Span} :
    block (.mk stmts sp) c s = .ok ((), s') ↔
      ∃ s₁, stmtList stmts c { s with scope := s.scope.enter } = .ok ((), s₁) ∧
        s' = { s₁ with scope := s₁.scope.leave } := by
  rw [block]
  simp only [bind_ok, modify_ok]
  constructor
  · rintro ⟨_, _, rfl, _, s₁, hs, hl⟩
    exact ⟨s₁, hs, hl⟩
  · rintro ⟨s₁, hs, rfl⟩
    exact ⟨(), _, rfl, (), s₁, hs, rfl⟩

theorem stmt_block_ok {b : Block} :
    stmt (.block b) c s = .ok ((), s') ↔ block b c { s with emitter := s.emitter.setLine b.span.line } = .ok ((), s') := by
  rw [stmt_block_eq]
  simp only [bind_ok, out_ok, Stmt.span]
  constructor
  · rintro ⟨_, _, rfl, h⟩
    exact h
  · intro h
    exact ⟨(), _, rfl, h⟩

theorem stmtList_nil_ok : stmtList [] c s = .ok ((), s') ↔ s' = s := by
  rw [stmtList]
  simp only [pure_ok, true_and]

theorem stmtList_cons_ok {x : Stmt} {rest : List Stmt} :
    stmtList (x :: rest) c s = .ok ((), s') ↔ ∃ s₁, stmt x c s = .ok ((), s₁) ∧ stmtList rest c s₁ = .ok ((), s') := by
  rw [stmtList]
  simp only [bind_ok]
  constructor
  · rintro ⟨_, s₁, h₁, h₂⟩
    exact ⟨s₁, h₁, h₂⟩
  · rintro ⟨s₁, h₁, h₂⟩
    exact ⟨(), s₁, h₁, h₂⟩

theorem stmt_if_ok {cond : Expr} {thenB : Block} {elseS : Option Stmt} {sp : Span}
    (h : stmt (.ifElse cond thenB elseS sp) c s = .ok ((), s')) :
    ∃ s₁ s₂, expr cond c { s with emitter := s.emitter.setLine sp.line } = .ok (.bool, s₁) ∧
      block thenB c { s₁ with emitter := s₁.emitter.newLabel.2.jump .ifeq s₁.emitter.bound.size } =
        .ok ((), s₂) ∧
      ((elseS = none ∧ s' = { s₂ with emitter := s₂.emitter.place s₁.emitter.bound.size }) ∨
       (∃ e, elseS = some e ∧ thenB.alwaysReturns = true ∧
         stmt e c { s₂ with emitter := s₂.emitter.place s₁.emitter.bound.size } = .ok ((), s')) ∨
       (∃ e s₃, elseS = some e ∧ thenB.alwaysReturns = false ∧
         stmt e c { s₂ with emitter := ((s₂.emitter.newLabel.2.jump .goto s₂.emitter.bound.size).place
           s₁.emitter.bound.size) } = .ok ((), s₃) ∧
         s' = { s₃ with emitter := s₃.emitter.place s₂.emitter.bound.size })) := by
  rw [stmt_ifElse_eq] at h
  simp only [bind_ok, out_ok, requireValue_ok, expectBool_ok, newLabel_ok] at h
  obtain ⟨_, _, rfl, _, _, hc, _, _, ⟨rfl, rfl, -, -⟩, _, _, ⟨rfl, rfl⟩, _, _, ⟨rfl, rfl⟩, _, _, rfl,
    _, _, hthen, h⟩ := h
  refine ⟨_, _, hc, hthen, ?_⟩
  cases elseS with
  | none =>
    simp only [out_ok] at h
    exact .inl ⟨rfl, h⟩
  | some e =>
    simp only [] at h
    split at h
    · rename_i hret
      simp only [bind_ok, pure_ok, out_ok] at h
      obtain ⟨_, _, ⟨rfl, rfl⟩, _, _, rfl, _, s₃, he, h⟩ := h
      simp only [pure_ok] at h
      obtain ⟨-, rfl⟩ := h
      exact .inr (.inl ⟨e, rfl, hret, he⟩)
    · rename_i hret
      simp only [bind_ok, pure_ok, out_ok, newLabel_ok] at h
      obtain ⟨_, _, ⟨rfl, rfl⟩, _, _, rfl, _, _, ⟨rfl, rfl⟩, _, _, rfl, _, s₃, he, h⟩ := h
      simp only [out_ok] at h
      exact .inr (.inr ⟨e, s₃, rfl, by simpa using hret, he, h⟩)

theorem stmt_while_ok {cond : Expr} {body : Block} {sp : Span}
    (h : stmt (.while cond body sp) c s = .ok ((), s')) :
    ∃ s₁ s₂, expr cond c { s with emitter := (((s.emitter.setLine sp.line).newLabel.2.newLabel.2).place
        (s.emitter.setLine sp.line).bound.size) } = .ok (.bool, s₁) ∧
      block body c { s₁ with emitter := s₁.emitter.jump .ifeq ((s.emitter.setLine sp.line).bound.size + 1) } =
        .ok ((), s₂) ∧
      s' = { s₂ with emitter := ((s₂.emitter.jump .goto (s.emitter.setLine sp.line).bound.size).place
        ((s.emitter.setLine sp.line).bound.size + 1)) } := by
  rw [stmt_while_eq] at h
  simp only [bind_ok, out_ok, requireValue_ok, expectBool_ok, newLabel_ok] at h
  obtain ⟨_, _, rfl, _, _, ⟨rfl, rfl⟩, _, _, ⟨rfl, rfl⟩, _, _, rfl, _, _, hc, _, _, ⟨rfl, rfl, -, -⟩,
    _, _, ⟨rfl, rfl⟩, _, _, rfl, ⟨⟩, s₂, hbody, h⟩ := h
  refine ⟨_, s₂, hc, ?_, ?_⟩
  · simpa [Stmt.span] using hbody
  · simpa [Stmt.span] using h

/-! ### Shape of the generated code -/

section Shape

variable {vars : List String}

/-- What the generation of an expression from a state keeps: it appends code
    and places only labels of its own, and the scope stays as it was. -/
def Keeps (e : Expr) (c : MethodContext) (vars : List String) : Prop :=
  ∀ {s s' : GenState} {t : Ty}, expr e c s = .ok (t, s') →
    (∀ x ∈ vars, (s.scope.lookup? x).isSome) → Grows s s' ∧ s'.scope = s.scope

theorem arguments_keeps {args : List Expr} (hargs : ∀ a ∈ args, Keeps a c vars) :
    ∀ {s s' : GenState} {ts : List Ty}, arguments args c s = .ok (ts, s') →
      (∀ x ∈ vars, (s.scope.lookup? x).isSome) → Grows s s' ∧ s'.scope = s.scope := by
  induction args with
  | nil =>
    intro s s' ts h _
    obtain ⟨rfl, rfl⟩ := arguments_nil_ok.1 h
    exact ⟨Grows.refl _, rfl⟩
  | cons a rest ih =>
    intro s s' ts h hin
    obtain ⟨_, s₁, _, ha, _, _, hrest, rfl⟩ := arguments_cons_ok h
    obtain ⟨g₁, sc₁⟩ := hargs a List.mem_cons_self ha hin
    obtain ⟨g₂, sc₂⟩ := ih (fun b hb => hargs b (List.mem_cons_of_mem _ hb)) hrest (by rwa [sc₁])
    exact ⟨g₁.trans g₂, sc₂.trans sc₁⟩

theorem expr_keeps (hc : GlobalCtx c) {e : Expr} (he : FragExpr vars e) : Keeps e c vars := by
  induction he with
  | int =>
    intro s s' t h _
    obtain ⟨rfl, rfl⟩ := literal_int_ok.1 (expr_lit ▸ h)
    exact ⟨Grows.push (intConst_notLabel _), rfl⟩
  | long =>
    intro s s' t h _
    obtain ⟨rfl, rfl⟩ := literal_long_ok.1 (expr_lit ▸ h)
    exact ⟨Grows.push (longConst_notLabel _), rfl⟩
  | bool =>
    intro s s' t h _
    obtain ⟨rfl, rfl⟩ := literal_bool_ok.1 (expr_lit ▸ h)
    exact ⟨Grows.push fun _ => Instruction.noConfusion, rfl⟩
  | ident hx =>
    intro s s' t h hin
    obtain ⟨v, hv⟩ := Option.isSome_iff_exists.1 (hin _ hx)
    obtain ⟨rfl, rfl⟩ := (identifier_local hv).1 (expr_ident ▸ h)
    exact ⟨Grows.push fun _ => Instruction.noConfusion, rfl⟩
  | paren _ ih =>
    intro s s' t h hin
    exact ih (expr_paren ▸ h) hin
  | unary _ ih =>
    intro s s' t h hin
    obtain ⟨a, s₁, he, _, _, hu⟩ := expr_unary_ok h
    obtain ⟨g₁, sc₁⟩ := ih he hin
    rcases unary_ok hu with ⟨_, code, _, rfl⟩ | ⟨_, _, _, rfl⟩
    · exact ⟨g₁.trans (Grows.push fun _ => Instruction.noConfusion), sc₁⟩
    · exact ⟨(g₁.trans (Grows.push fun _ => Instruction.noConfusion)).trans
        (Grows.push fun _ => Instruction.noConfusion), sc₁⟩
  | binary _ _ ihl ihr =>
    intro s s' t h hin
    obtain ⟨a, s₁, b, s₂, hl, _, _, hr, _, _, hb⟩ := expr_binary_ok h
    obtain ⟨g₁, sc₁⟩ := ihl hl hin
    obtain ⟨g₂, sc₂⟩ := ihr hr (by rwa [sc₁])
    obtain ⟨g₃, sc₃⟩ := binary_grows hb
    exact ⟨(g₁.trans g₂).trans g₃, sc₃.trans (sc₂.trans sc₁)⟩
  | assign ht _ ih =>
    intro s s' t h hin
    obtain ⟨lv, s₁, v, s₂, hlv, hv, _, _, _, hst, rfl⟩ := expr_assign_ok h
    obtain ⟨rfl, x, w, _, _, rfl⟩ := assignTarget_local ht hin hlv
    obtain ⟨g₁, sc₁⟩ := ih hv hin
    obtain rfl := storeTo_local.1 hst
    exact ⟨g₁.trans (Grows.push fun _ => Instruction.noConfusion), sc₁⟩
  | call _ ih =>
    intro s s' t h hin
    obtain ⟨ts, s₁, hargs, hcall⟩ := expr_call_ok h
    obtain ⟨g₁, sc₁⟩ := arguments_keeps ih hargs hin
    obtain ⟨d, m, _, _, rfl, rfl⟩ := bareCall_global hc hcall
    exact ⟨g₁.trans (Grows.push fun _ => Instruction.noConfusion), sc₁⟩
  | cast hp _ ih =>
    intro s s' t h hin
    obtain ⟨p, hp⟩ := Option.isSome_iff_exists.1 hp
    obtain ⟨ty, a, s₁, hty, he, _, _, hcast⟩ := expr_cast_ok h
    rw [MethodContext.resolveKnown_prim _ hp] at hty
    cases hty
    obtain ⟨g₁, sc₁⟩ := ih he hin
    obtain ⟨rfl, ⟨-, rfl⟩ | ⟨-, -, -, rfl⟩⟩ := cast_prim_ok hcast
    · exact ⟨g₁, sc₁⟩
    · exact ⟨g₁.trans (Grows.emits _), sc₁⟩

end Shape

end Gen

end ClassCompiler
