import ClassCompiler.Proofs.Primitive.Generation

/-!
# Scopes and the shape of statement code

How compiling a statement of the primitive fragment changes the scope and the
code, read off the generator alone.

* `ScopeOk`: the variables of a scope take distinct slots below the next free
  one, a later one a higher slot, and those of inner blocks come first;
  declaring, entering and leaving a block keep it;
* `Extends sc sc' new`: `sc'` has the variables of `sc` behind the variables
  `new`, declared in the same block;
* `stmt_shape`: the code of a statement only appends, keeps the scope well
  formed and extends it by the variables the statement declares, while a
  block gives back the variables it started with.
-/

namespace ClassCompiler.Primitive

open Syntax Gen

/-! ### Well-formed scopes -/

/-- The variables of a scope take distinct slots below the next free one, a
    later one a higher slot, and the variables of inner blocks come first. -/
structure ScopeOk (sc : Scope) : Prop where
  slots : sc.vars.Pairwise fun u w => w.slot < u.slot
  below : ∀ v ∈ sc.vars, v.slot < sc.next
  depths : sc.vars.Pairwise fun u w => w.depth ≤ u.depth
  depth_le : ∀ v ∈ sc.vars, v.depth ≤ sc.depth

/-- The scope with the variable `x` of type `t` in the next slots of the
    current block: what a declaration makes of it. -/
def Scope.withVar (sc : Scope) (x : String) (t : Ty) (sp : Span) : Scope :=
  { vars := ⟨x, t, sc.next, sc.depth, sp⟩ :: sc.vars, depth := sc.depth, next := sc.next + max t.slotSize 1 }

/-- A declaration takes the next slots for a name not yet in scope. -/
theorem Scope.declare_ok {sc sc' : Scope} {x : String} {t : Ty} {sp : Span} {slot : Nat}
    (h : sc.declare x t sp = .ok (slot, sc')) :
    sc.lookup? x = none ∧ slot = sc.next ∧
      sc' = { vars := ⟨x, t, sc.next, sc.depth, sp⟩ :: sc.vars, depth := sc.depth,
              next := sc.next + max t.slotSize 1 } := by
  unfold Scope.declare at h
  split at h
  · cases h
  · rename_i hl
    simp only [Scope.allocate] at h
    split at h
    · cases h
    · cases h
      exact ⟨hl, rfl, rfl⟩

namespace ScopeOk

variable {sc sc' : Scope}

/-- A new variable in the next slots keeps a scope well formed. -/
theorem withVar {x : String} {t : Ty} {sp : Span} (h : ScopeOk sc) : ScopeOk (Scope.withVar sc x t sp) := by
  refine ⟨List.pairwise_cons.2 ⟨fun w hw => h.below w hw, h.slots⟩, ?_,
    List.pairwise_cons.2 ⟨fun w hw => h.depth_le w hw, h.depths⟩, ?_⟩
  · intro v hv
    rcases List.mem_cons.1 hv with rfl | hv
    · simp only [Scope.withVar]
      omega
    · have := h.below v hv
      simp only [Scope.withVar]
      omega
  · intro v hv
    rcases List.mem_cons.1 hv with rfl | hv
    · exact Nat.le_refl _
    · exact h.depth_le v hv

theorem declare {x : String} {t : Ty} {sp : Span} {slot : Nat} (h : ScopeOk sc)
    (hd : sc.declare x t sp = .ok (slot, sc')) : ScopeOk sc' := by
  obtain ⟨-, -, rfl⟩ := Scope.declare_ok hd
  exact h.withVar

theorem enter (h : ScopeOk sc) : ScopeOk sc.enter :=
  ⟨h.slots, h.below, h.depths, fun v hv => Nat.le_succ_of_le (h.depth_le v hv)⟩

theorem leave (h : ScopeOk sc) : ScopeOk sc.leave where
  slots := h.slots.filter _
  below v hv := h.below v (List.mem_filter.1 hv).1
  depths := h.depths.filter _
  depth_le v hv := by
    have := (List.mem_filter.1 hv).2
    simp only [decide_eq_true_eq] at this
    simp only [Scope.leave]
    omega

end ScopeOk

/-! ### Scopes that grow -/

/-- The scope `sc'` has the variables of `sc` behind the variables `new`,
    declared in the same block. -/
structure Extends (sc sc' : Scope) (new : List LocalVar) : Prop where
  depth : sc'.depth = sc.depth
  next : sc.next ≤ sc'.next
  vars : sc'.vars = new ++ sc.vars
  fresh : ∀ v ∈ new, v.depth = sc.depth

namespace Extends

variable {sc sc₁ sc₂ sc₃ sc' : Scope} {new new₁ new₂ : List LocalVar}

theorem refl (sc : Scope) : Extends sc sc [] := ⟨rfl, Nat.le_refl _, rfl, by simp⟩

/-- A scope with the same variables and block, and no fewer slots taken. -/
theorem same (hv : sc'.vars = sc.vars) (hd : sc'.depth = sc.depth) (hn : sc.next ≤ sc'.next) :
    Extends sc sc' [] :=
  ⟨hd, hn, hv, by simp⟩

theorem of_eq (h : sc' = sc) : Extends sc sc' [] := h ▸ refl sc

theorem trans (h₁ : Extends sc₁ sc₂ new₁) (h₂ : Extends sc₂ sc₃ new₂) : Extends sc₁ sc₃ (new₂ ++ new₁) where
  depth := h₂.depth.trans h₁.depth
  next := Nat.le_trans h₁.next h₂.next
  vars := by rw [h₂.vars, h₁.vars, List.append_assoc]
  fresh v hv := by
    rcases List.mem_append.1 hv with hv | hv
    · rw [h₂.fresh v hv, h₁.depth]
    · exact h₁.fresh v hv

theorem declare {x : String} {t : Ty} {sp : Span} {slot : Nat} (hd : sc.declare x t sp = .ok (slot, sc')) :
    Extends sc sc' [⟨x, t, sc.next, sc.depth, sp⟩] := by
  obtain ⟨-, -, rfl⟩ := Scope.declare_ok hd
  exact ⟨rfl, by simp, rfl, by simp⟩

/-- Leaving a block gives back the scope it was entered from: the variables
    declared in it are of its depth, and those before it of a lower one. -/
theorem leave (hok : ScopeOk sc) (h : Extends sc.enter sc' new) : Extends sc sc'.leave [] := by
  have hnew : new.filter (fun v => decide (v.depth < sc'.depth)) = [] := by
    refine List.filter_eq_nil_iff.2 fun v hv => ?_
    simp [h.fresh v hv, h.depth, Scope.enter]
  have hold : sc.vars.filter (fun v => decide (v.depth < sc'.depth)) = sc.vars := by
    refine List.filter_eq_self.2 fun v hv => ?_
    have := hok.depth_le v hv
    simp only [h.depth, Scope.enter, decide_eq_true_eq]
    omega
  refine same ?_ ?_ h.next
  · simp only [Scope.leave]
    rw [h.vars, List.filter_append, hnew, List.nil_append]
    exact hold
  · simp [Scope.leave, h.depth, Scope.enter]

/-- The names in scope stay in scope, and the new ones come in. -/
theorem lookups {vars vars' : List String} (h : Extends sc sc' new)
    (hin : ∀ x ∈ vars, (sc.lookup? x).isSome) (hnames : new.map (·.name) ++ vars = vars') :
    ∀ x ∈ vars', (sc'.lookup? x).isSome := by
  subst hnames
  intro x hx
  simp only [Scope.lookup?, h.vars, List.find?_append, Option.isSome_or, Bool.or_eq_true]
  rcases List.mem_append.1 hx with hx | hx
  · left
    obtain ⟨v, hv, rfl⟩ := List.mem_map.1 hx
    exact List.find?_isSome.2 ⟨v, hv, by simp⟩
  · exact .inr (hin x hx)

end Extends

/-! ### Code whose end is reached -/

theorem Rules.negate_continues {a t : Ty} {op : Opcode} (h : Rules.negate a = some (op, t)) :
    op.endsBlock = false := by
  simp only [Rules.negate] at h
  split at h
  · obtain ⟨op', hop, hp⟩ := Option.map_eq_some_iff.1 h
    cases hp
    cases hk : a.kind <;> simp only [hk, Opcode.negate, reduceCtorEq, Option.some.injEq] at hop <;>
      subst hop <;> rfl
  · cases h

theorem Rules.arith_continues {ar : Opcode.Arith} {l r t : Ty} {op : Opcode}
    (h : Rules.arith ar l r = some (op, t)) : op.endsBlock = false := by
  simp only [Rules.arith] at h
  split at h
  · obtain ⟨op', hop, hp⟩ := Option.map_eq_some_iff.1 h
    cases hp
    cases ar <;> cases hk : l.kind <;> simp only [hk, Opcode.arith, reduceCtorEq, Option.some.injEq] at hop <;>
      subst hop <;> rfl
  · cases h

/-- A conversion is made of plain instructions only. -/
theorem Rules.conversion_continues (a t : Ty) : ∀ op ∈ Rules.conversion a t, op.endsBlock = false := by
  intro op hop
  simp only [Rules.conversion] at hop
  split at hop <;> (try split at hop) <;>
    simp only [List.mem_append, List.mem_cons, List.not_mem_nil, or_false, List.nil_append] at hop <;>
    (try rcases hop with rfl | rfl) <;> (try subst hop) <;> rfl

/-- A comparison ends at its exit label, reached from both of its arms. -/
theorem compareCode_reachableEnd (e : Emitter) (pre : List Opcode) (jump : Opcode) :
    (compareCode e pre jump).reachableEnd = true :=
  Emitter.reachableEnd_place (Emitter.reachableEnd_emit rfl)

section Open

variable {c : MethodContext} {vars : List String}

/-- The code of an expression never ends in a jump or a return. -/
theorem expr_open (hc : GlobalCtx c) {e : Expr} (he : FragExpr vars e) :
    ∀ {s s' : GenState} {t : Ty}, expr e c s = .ok (t, s') →
      (∀ x ∈ vars, (s.scope.lookup? x).isSome) → s'.emitter.reachableEnd = true := by
  induction he with
  | int =>
    intro s s' t h _
    obtain ⟨rfl, rfl⟩ := literal_int_ok.1 (expr_lit ▸ h)
    exact Emitter.reachableEnd_push_continues (intConst_continues _)
  | long =>
    intro s s' t h _
    obtain ⟨rfl, rfl⟩ := literal_long_ok.1 (expr_lit ▸ h)
    exact Emitter.reachableEnd_push_continues (longConst_continues _)
  | bool =>
    intro s s' t h _
    obtain ⟨rfl, rfl⟩ := literal_bool_ok.1 (expr_lit ▸ h)
    exact Emitter.reachableEnd_emit (by split <;> rfl)
  | ident hx =>
    intro s s' t h hin
    obtain ⟨v, hv⟩ := Option.isSome_iff_exists.1 (hin _ hx)
    obtain ⟨rfl, rfl⟩ := (identifier_local hv).1 (expr_ident ▸ h)
    exact Emitter.reachableEnd_push_continues (load_continues _ _)
  | paren _ ih =>
    intro s s' t h hin
    exact ih (expr_paren ▸ h) hin
  | unary =>
    intro s s' t h _
    obtain ⟨a, s₁, -, -, -, hu⟩ := expr_unary_ok h
    rcases unary_ok hu with ⟨_, code, hcode, rfl⟩ | ⟨_, _, _, rfl⟩
    · exact Emitter.reachableEnd_emit (Rules.negate_continues hcode)
    · exact Emitter.reachableEnd_emit rfl
  | binary =>
    intro s s' t h _
    obtain ⟨a, s₁, b, s₂, -, -, -, -, -, -, hb⟩ := expr_binary_ok h
    rcases binary_ok hb with ⟨_, _, _, _, rfl⟩ | ⟨_, pre, jump, _, _, _, _, rfl⟩ |
      ⟨_, code, _, _, _, hcode, rfl⟩
    · exact Emitter.reachableEnd_emit (by split <;> rfl)
    · exact compareCode_reachableEnd _ pre jump
    · exact Emitter.reachableEnd_emit (Rules.arith_continues hcode)
  | assign ht =>
    intro s s' t h hin
    obtain ⟨lv, s₁, v, s₂, hlv, -, -, -, -, hst, rfl⟩ := expr_assign_ok h
    obtain ⟨rfl, x, w, _, _, rfl⟩ := assignTarget_local ht hin hlv
    obtain rfl := storeTo_local.1 hst
    exact Emitter.reachableEnd_push_continues (store_continues _ _)
  | call =>
    intro s s' t h _
    obtain ⟨ts, s₁, -, hcall⟩ := expr_call_ok h
    obtain ⟨d, m, _, _, rfl, rfl⟩ := bareCall_global hc hcall
    exact Emitter.reachableEnd_push_continues (invoke_continues d m)
  | cast hp _ ih =>
    intro s s' t h hin
    obtain ⟨p, hp⟩ := Option.isSome_iff_exists.1 hp
    obtain ⟨ty, a, s₁, hty, he, _, _, hcast⟩ := expr_cast_ok h
    rw [MethodContext.resolveKnown_prim _ hp] at hty
    cases hty
    obtain ⟨rfl, ⟨-, rfl⟩ | ⟨-, -, -, rfl⟩⟩ := cast_prim_ok hcast
    · exact ih he hin
    · exact Emitter.reachableEnd_foldl_emit (Rules.conversion_continues _ _) (ih he hin)

end Open

/-! ### The shape of statement code -/

/-- What compiling a statement does: the code only grows, and the scope stays
    well formed and gains, in the current block, the variables the statement
    declares, named as the fragment says; unless the statement always returns,
    an end of the code that control reaches stays reached. -/
def StmtShape (c : MethodContext) (S : Stmt) (vars vars' : List String) : Prop :=
  ∀ {s s' : GenState}, stmt S c s = .ok ((), s') → ScopeOk s.scope →
    (∀ x ∈ vars, (s.scope.lookup? x).isSome) →
    Grows s s' ∧ ScopeOk s'.scope ∧ (∃ new, Extends s.scope s'.scope new ∧ new.map (·.name) ++ vars = vars') ∧
      (S.alwaysReturns = false → s.emitter.reachableEnd = true → s'.emitter.reachableEnd = true)

/-- What compiling a list of statements does, as for one statement. -/
def StmtsShape (c : MethodContext) (stmts : List Stmt) (vars vars' : List String) : Prop :=
  ∀ {s s' : GenState}, stmtList stmts c s = .ok ((), s') → ScopeOk s.scope →
    (∀ x ∈ vars, (s.scope.lookup? x).isSome) →
    Grows s s' ∧ ScopeOk s'.scope ∧ (∃ new, Extends s.scope s'.scope new ∧ new.map (·.name) ++ vars = vars') ∧
      (Stmt.anyReturns stmts = false → s.emitter.reachableEnd = true → s'.emitter.reachableEnd = true)

/-- A block gives back the variables it started with. -/
def BlockShape (c : MethodContext) (b : Block) (vars : List String) : Prop :=
  ∀ {s s' : GenState}, block b c s = .ok ((), s') → ScopeOk s.scope →
    (∀ x ∈ vars, (s.scope.lookup? x).isSome) → Grows s s' ∧ ScopeOk s'.scope ∧ Extends s.scope s'.scope [] ∧
      (b.alwaysReturns = false → s.emitter.reachableEnd = true → s'.emitter.reachableEnd = true)

section Shape

variable {c : MethodContext} {vars : List String}

theorem shape_expr (hc : GlobalCtx c) {e : Expr} {sp : Span} (he : FragExpr vars e) :
    StmtShape c (.expr e sp) vars vars := by
  intro s s' h hok hin
  obtain ⟨t, s₁, he', hs'⟩ := stmt_expr_ok h
  obtain ⟨g₁, sc₁⟩ := expr_keeps hc he he' hin
  have hopen : s₁.emitter.reachableEnd = true := expr_open hc he he' hin
  -- a value the statement does not use is dropped
  have hpop : Grows s₁ s' ∧ s'.scope = s₁.scope ∧ s'.emitter.reachableEnd = true := by
    rw [hs']
    split
    · exact ⟨Grows.refl _, rfl, hopen⟩
    · exact ⟨Grows.pop t, rfl, Emitter.reachableEnd_pop t hopen⟩
  have hsc : s'.scope = s.scope := hpop.2.1.trans sc₁
  exact ⟨(Grows.setLine sp.line).trans (g₁.trans hpop.1), hsc ▸ hok, ⟨[], Extends.of_eq hsc, rfl⟩,
    fun _ _ => hpop.2.2⟩

theorem shape_let (hc : GlobalCtx c) {x : Ident} {ty : Option TypeExpr} {init : Expr} {sp : Span}
    (hty : ∀ t ∈ ty, (PTy.ofTypeExpr? t).isSome) (he : FragExpr vars init) :
    StmtShape c (.letDecl x ty init sp) vars (x.name :: vars) := by
  intro s s' h hok hin
  obtain ⟨i, s₁, hi, _, _, hd⟩ := stmt_let_ok hty h
  obtain ⟨g₁, sc₁⟩ := expr_keeps hc he hi hin
  obtain ⟨slot, sc, _, hdecl, rfl⟩ := declareLocal_ok hd
  rw [sc₁] at hdecl
  have hx := Extends.declare hdecl
  have gstore : Grows s₁
      { emitter := s₁.emitter.store ((ty.bind fun t => (PTy.ofTypeExpr? t).map PTy.ty).getD i) slot
        scope := sc } :=
    (Grows.store _ _).trans (Grows.scope (sc₁ ▸ hx.next))
  exact ⟨(Grows.setLine sp.line).trans (g₁.trans gstore), hok.declare hdecl, ⟨_, hx, rfl⟩,
    fun _ _ => Emitter.reachableEnd_push_continues (store_continues _ _)⟩

theorem shape_ret (hc : GlobalCtx c) {value : Option Expr} {sp : Span} (hv : ∀ e ∈ value, FragExpr vars e) :
    StmtShape c (.ret value sp) vars vars := by
  intro s s' h hok hin
  -- a return always returns, so nothing is said of the end of its code
  have hend : Stmt.alwaysReturns (.ret value sp) = false → s'.emitter.reachableEnd = true :=
    fun h => Bool.noConfusion h
  rcases stmt_ret_ok h with ⟨-, -, rfl⟩ | ⟨e, v, s₁, rfl, -, he, -, -, -, rfl⟩
  · exact ⟨(Grows.setLine sp.line).trans (Grows.emit _), hok, ⟨[], Extends.refl _, rfl⟩, fun h _ => hend h⟩
  · obtain ⟨g₁, sc₁⟩ := expr_keeps hc (hv e rfl) he hin
    exact ⟨(Grows.setLine sp.line).trans (g₁.trans (Grows.emit _)), sc₁ ▸ hok, ⟨[], Extends.of_eq sc₁, rfl⟩,
      fun h _ => hend h⟩

theorem shape_block {b : Block} (hb : BlockShape c b vars) : StmtShape c (.block b) vars vars := by
  intro s s' h hok hin
  obtain ⟨g, hok', hx, hopen⟩ := hb (stmt_block_ok.1 h) hok hin
  exact ⟨(Grows.setLine _).trans g, hok', ⟨[], hx, rfl⟩,
    fun hr he => hopen hr (by rwa [Emitter.reachableEnd_setLine])⟩

theorem block_shape_mk {stmts : List Stmt} {sp : Span} {vars' : List String}
    (hs : StmtsShape c stmts vars vars') : BlockShape c (.mk stmts sp) vars := by
  intro s s' h hok hin
  obtain ⟨s₁, h₁, rfl⟩ := block_ok.1 h
  obtain ⟨g, hok₁, ⟨new, hx, -⟩, hopen⟩ := hs h₁ hok.enter hin
  have genter : Grows s { s with scope := s.scope.enter } := Grows.scope (Nat.le_refl _)
  have gleave : Grows s₁ { s₁ with scope := s₁.scope.leave } := Grows.scope (Nat.le_refl _)
  exact ⟨genter.trans (g.trans gleave), hok₁.leave, Extends.leave hok hx, hopen⟩

theorem stmts_shape_nil : StmtsShape c [] vars vars := by
  intro s s' h hok _
  obtain rfl := stmtList_nil_ok.1 h
  exact ⟨Grows.refl _, hok, ⟨[], Extends.refl _, rfl⟩, fun _ he => he⟩

theorem stmts_shape_cons {S : Stmt} {rest : List Stmt} {vars' vars'' : List String}
    (h₁ : StmtShape c S vars vars') (h₂ : StmtsShape c rest vars' vars'') :
    StmtsShape c (S :: rest) vars vars'' := by
  intro s s' h hok hin
  obtain ⟨s₁, hs₁, hrest⟩ := stmtList_cons_ok.1 h
  obtain ⟨g₁, hok₁, ⟨new₁, hx₁, hn₁⟩, hopen₁⟩ := h₁ hs₁ hok hin
  obtain ⟨g₂, hok₂, ⟨new₂, hx₂, hn₂⟩, hopen₂⟩ := h₂ hrest hok₁ (hx₁.lookups hin hn₁)
  refine ⟨g₁.trans g₂, hok₂, ⟨new₂ ++ new₁, hx₁.trans hx₂, ?_⟩, fun hr he => ?_⟩
  · rw [List.map_append, List.append_assoc, hn₁, hn₂]
  · -- neither the statement nor the rest always returns
    simp only [Stmt.anyReturns, Bool.or_eq_false_iff] at hr
    exact hopen₂ hr.2 (hopen₁ hr.1 he)

/-- A statement of the fragment over the same names declares nothing. -/
theorem Extends.nil_of_names {sc sc' : Scope} {new : List LocalVar} (hx : Extends sc sc' new)
    (hn : new.map (·.name) ++ vars = vars) : Extends sc sc' [] := by
  have : new = [] := List.map_eq_nil_iff.1 (List.append_cancel_right (hn.trans (List.nil_append vars).symm))
  exact this ▸ hx

theorem shape_if (hc : GlobalCtx c) {cond : Expr} {t : Block} {elseS : Option Stmt} {sp : Span}
    (hcond : FragExpr vars cond) (hthen : BlockShape c t vars)
    (helse : ∀ e ∈ elseS, StmtShape c e vars vars) :
    StmtShape c (.ifElse cond t elseS sp) vars vars := by
  intro s s' h hok hin
  obtain ⟨s₁, s₂, hc₁, hthen₁, hrest⟩ := stmt_if_ok h
  obtain ⟨g₁, sc₁⟩ := expr_keeps hc hcond hc₁ hin
  obtain ⟨g₂, hok₂, hx₂, -⟩ := hthen hthen₁ (sc₁ ▸ hok) (by rwa [sc₁])
  have hx₂' : Extends s.scope s₂.scope [] := sc₁ ▸ hx₂
  -- every label of the statement is made after the condition
  have gjump : Grows { s₁ with emitter := s₁.emitter.newLabel.2 } s₂ := (Grows.jump _ _).trans g₂
  have gthen : Grows s₁ s₂ := Grows.newLabel.trans gjump
  -- the label past the branch is still free when it is placed
  have hL : (s₂.emitter.place s₁.emitter.bound.size).reachableEnd = true :=
    Emitter.reachableEnd_place_fresh gjump.fresh
  rcases hrest with ⟨-, rfl⟩ | ⟨e, rfl, hret, he⟩ | ⟨e, s₃, rfl, -, he, rfl⟩
  · exact ⟨(Grows.setLine _).trans (g₁.trans (gthen.place_new (Nat.le_refl _))), hok₂, ⟨[], hx₂', rfl⟩,
      fun _ _ => hL⟩
  · obtain ⟨g₃, hok₃, ⟨new, hx₃, hn⟩, hopen₃⟩ := helse e rfl he hok₂ (hx₂'.lookups hin rfl)
    refine ⟨(Grows.setLine _).trans (g₁.trans ((gthen.place_new (Nat.le_refl _)).trans g₃)), hok₃,
      ⟨[], hx₂'.trans (hx₃.nil_of_names hn), rfl⟩, fun hr _ => hopen₃ ?_ hL⟩
    -- the then-block always returns, so the else-branch does not
    simp only [Stmt.alwaysReturns, Bool.and_eq_false_iff] at hr
    rcases hr with hr | hr
    · rw [hret] at hr
      cases hr
    · exact hr
  · obtain ⟨g₃, hok₃, ⟨new, hx₃, hn⟩, -⟩ := helse e rfl he hok₂ (hx₂'.lookups hin rfl)
    have gelse : Grows s₁ s₃ :=
      (((gthen.trans Grows.newLabel).trans (Grows.jump _ _)).place_new
        (Nat.le_refl _)).trans g₃
    -- the exit label is made after the else-label, and the else-branch leaves it free
    have hlt : s₁.emitter.bound.size < s₂.emitter.bound.size := by
      have := gjump.bound_size_le
      simp only [Emitter.newLabel_bound, Array.size_push] at this
      omega
    have hM : s₃.emitter.bound[s₂.emitter.bound.size]? = some false := by
      rw [g₃.bound_keep _ (by simp), Emitter.place_bound_ne (by omega)]
      simp
    exact ⟨(Grows.setLine _).trans (g₁.trans (gelse.place_new gthen.bound_size_le)), hok₃,
      ⟨[], hx₂'.trans (hx₃.nil_of_names hn), rfl⟩, fun _ _ => Emitter.reachableEnd_place_fresh hM⟩

theorem shape_while (hc : GlobalCtx c) {cond : Expr} {body : Block} {sp : Span}
    (hcond : FragExpr vars cond) (hbody : BlockShape c body vars) :
    StmtShape c (.while cond body sp) vars vars := by
  intro s s' h hok hin
  obtain ⟨s₁, s₂, hc₁, hb, rfl⟩ := stmt_while_ok h
  -- both labels are made right after the line marker
  have ghead : Grows { s with emitter := s.emitter.setLine sp.line }
      { s with
        emitter := ((s.emitter.setLine sp.line).newLabel.2.newLabel.2).place
          (s.emitter.setLine sp.line).bound.size } :=
    (Grows.newLabel.trans Grows.newLabel).place_new (Nat.le_refl _)
  obtain ⟨g₁, sc₁⟩ := expr_keeps hc hcond hc₁ hin
  obtain ⟨g₂, hok₂, hx₂, -⟩ := hbody hb (sc₁ ▸ hok) (by rwa [sc₁])
  -- the exit label stays free through the condition and the body
  have hX : s₂.emitter.bound[(s.emitter.setLine sp.line).bound.size + 1]? = some false := by
    rw [((g₁.trans (Grows.jump _ _)).trans g₂).bound_keep _ (by simp), Emitter.place_bound_ne (by omega)]
    simp [Array.getElem_push]
  exact ⟨(Grows.setLine _).trans (((((ghead.trans g₁).trans (Grows.jump _ _)).trans g₂).trans
    (Grows.jump _ _)).place_new (Nat.le_succ _)), hok₂, ⟨[], sc₁ ▸ hx₂, rfl⟩,
    fun _ _ => Emitter.reachableEnd_place_fresh hX⟩

mutual

/-- Every statement of the fragment has the shape `StmtShape` says. -/
theorem stmt_shape (hc : GlobalCtx c) {vars vars' : List String} {S : Stmt}
    (h : FragStmt vars S vars') : StmtShape c S vars vars' :=
  match h with
  | .expr he => shape_expr hc he
  | .letDecl hty he => shape_let hc hty he
  | .ret hv => shape_ret hc hv
  | .block hb => shape_block (block_shape hc hb)
  | .ifThen hcond hb => shape_if hc hcond (block_shape hc hb) (by simp)
  | .ifElse hcond hb he => shape_if hc hcond (block_shape hc hb) (fun _ hmem => by cases hmem; exact stmt_shape hc he)
  | .while hcond hb => shape_while hc hcond (block_shape hc hb)

theorem block_shape (hc : GlobalCtx c) {vars : List String} {b : Block} (h : FragBlock vars b) :
    BlockShape c b vars :=
  match h with
  | .mk hs => block_shape_mk (stmts_shape hc hs)

theorem stmts_shape (hc : GlobalCtx c) {vars vars' : List String} {stmts : List Stmt}
    (h : FragStmts vars stmts vars') : StmtsShape c stmts vars vars' :=
  match h with
  | .nil => stmts_shape_nil
  | .cons h₁ h₂ => stmts_shape_cons (stmt_shape hc h₁) (stmts_shape hc h₂)

end

end Shape

end ClassCompiler.Primitive
