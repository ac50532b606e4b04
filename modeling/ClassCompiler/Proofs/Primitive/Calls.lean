import ClassCompiler.Proofs.Primitive.Statements
import ClassCompiler.Proofs.Codegen.Returns
import ClassCompiler.Proofs.Jvm.Descriptors

/-!
# Calls on the machine

A call of a global function of the fragment enters a frame whose first slots
hold the words of the arguments, and the parameters the compiler declares
name exactly those slots. From there the body runs as the source runs it, and
the frame hands back what the source returns. With the calls and loops one
level down run as their code, this gives the calls and loops of the next
level, so of every level, for the functions the machine holds compiled.

* `argWords`, `Scope.withVars`: the words of the arguments in slot order, and
  the scope with the parameters declared;
* `declareParams_ok`: the parameters take the first slots, in order;
* `MethodAnswer`, `body_sim`: the body of a compiled function, entered with
  its arguments, runs as the source runs the function;
* `Installed`, `levels_ok`: calls and loops run as their code at every level.
-/

namespace ClassCompiler.Primitive

open Syntax Machine Gen

/-! ### Parameters in the first slots -/

/-- The words of the arguments of a call in slot order: a wide value is
    followed by `top`. -/
def argWords (args : List Value) : List Value :=
  args.flatMap fun a => if a.isWide then [a, .top] else [a]

/-- The scope with the variables `ps` declared one after the other, each with
    its type, in the next slots of the current block. -/
def Scope.withVars (sc : Scope) (sp : Span) : List (String × Ty) → Scope
  | [] => sc
  | (x, t) :: ps => Scope.withVars (Scope.withVar sc x t sp) sp ps

section Params

variable {sp : Span}

theorem Scope.withVars_append (sc : Scope) (ps qs : List (String × Ty)) :
    Scope.withVars sc sp (ps ++ qs) = Scope.withVars (Scope.withVars sc sp ps) sp qs := by
  induction ps generalizing sc with
  | nil => rfl
  | cons p ps ih =>
    obtain ⟨x, t⟩ := p
    exact ih _

/-- The variables declared stand before the others, in the current block. -/
theorem Scope.withVars_extends (sp : Span) (sc : Scope) (ps : List (String × Ty)) :
    ∃ new, Extends sc (Scope.withVars sc sp ps) new ∧ new.map (·.name) = (ps.map (·.1)).reverse := by
  induction ps generalizing sc with
  | nil => exact ⟨[], Extends.refl sc, rfl⟩
  | cons p ps ih =>
    obtain ⟨x, t⟩ := p
    obtain ⟨new, hx, hnames⟩ := ih (Scope.withVar sc x t sp)
    have h₁ : Extends sc (Scope.withVar sc x t sp) [⟨x, t, sc.next, sc.depth, sp⟩] :=
      ⟨rfl, by simp [Scope.withVar], rfl, by simp⟩
    exact ⟨new ++ _, h₁.trans hx, by simp [hnames]⟩

theorem ScopeOk.withVars {sc : Scope} (h : ScopeOk sc) (ps : List (String × Ty)) :
    ScopeOk (Scope.withVars sc sp ps) := by
  induction ps generalizing sc with
  | nil => exact h
  | cons p ps ih =>
    obtain ⟨x, t⟩ := p
    exact ih h.withVar

/-- A value takes as many slots as the compiler gives its type. -/
theorem PVal.slots_eq (a : PVal) :
    max a.ty.ty.slotSize 1 = (if a.toValue.isWide then [a.toValue, Value.top] else [a.toValue]).length := by
  cases a <;> rfl

/-- Parameters declared over the words of their arguments: each names the
    slot of the first word of its argument, and the next free slot is the one
    after the last word. -/
theorem Scope.withVars_params {L : Array Value} (sp : Span) :
    ∀ (xs : List String) {vals : List PVal} {sc : Scope} {env : Env}, xs.length = vals.length →
      Mirror L sc.vars env → argWords (vals.map PVal.toValue) <+: L.toList.drop sc.next →
      Mirror L (Scope.withVars sc sp (xs.zip (vals.map fun a => a.ty.ty))).vars ((xs.zip vals).reverse ++ env) ∧
        (Scope.withVars sc sp (xs.zip (vals.map fun a => a.ty.ty))).next =
          sc.next + (argWords (vals.map PVal.toValue)).length
  | [], [], sc, env, _, hm, _ => ⟨hm, rfl⟩
  | x :: xs, a :: vals, sc, env, hlen, hm, hL => by
    have hw : argWords ((a :: vals).map PVal.toValue) =
        (if a.toValue.isWide then [a.toValue, Value.top] else [a.toValue]) ++ argWords (vals.map PVal.toValue) :=
      List.flatMap_cons
    rw [hw] at hL
    -- the first word of the argument stands in the parameter's slot
    obtain ⟨rest, hrest⟩ := hL
    have hslot : L[sc.next]? = some a.toValue := by
      have h₀ : (L.toList.drop sc.next)[0]? = some a.toValue := by
        rw [← hrest]
        split <;> rfl
      rwa [List.getElem?_drop, Nat.add_zero, Array.getElem?_toList] at h₀
    have hm₁ : Mirror L (Scope.withVar sc x a.ty.ty sp).vars ((x, a) :: env) := ⟨rfl, rfl, hslot, hm⟩
    have hL₁ : argWords (vals.map PVal.toValue) <+: L.toList.drop (Scope.withVar sc x a.ty.ty sp).next := by
      refine ⟨rest, ?_⟩
      rw [Scope.withVar, PVal.slots_eq, ← List.drop_drop, ← hrest, List.append_assoc, List.drop_left]
    obtain ⟨hmr, hnext⟩ := Scope.withVars_params sp xs (Nat.succ.inj hlen) hm₁ hL₁
    simp only [List.map_cons, List.zip_cons_cons, List.reverse_cons, List.append_assoc, List.singleton_append,
      Scope.withVars]
    refine ⟨hmr, ?_⟩
    rw [hnext, ← List.map_cons, hw, List.length_append, ← PVal.slots_eq]
    simp [Scope.withVar, Nat.add_assoc]

/-- A loop of generation over a list whose rounds all yield keeps an
    invariant of the elements done so far. -/
theorem forIn_invariant {α : Type} {c : MethodContext} {xs : List α} {f : α → PUnit → Gen (ForInStep PUnit)}
    (I : List α → GenState → Prop)
    (hf : ∀ pre x post s s' r, xs = pre ++ x :: post → I pre s → f x PUnit.unit c s = .ok (r, s') →
      r = .yield PUnit.unit ∧ I (pre ++ [x]) s') :
    ∀ (post pre : List α) {s s' : GenState}, xs = pre ++ post → I pre s →
      forIn post PUnit.unit f c s = .ok (PUnit.unit, s') → I xs s'
  | [], pre, s, s', hxs, hI, h => by
    rw [List.forIn_nil] at h
    obtain ⟨-, rfl⟩ := pure_ok.1 h
    simpa [hxs] using hI
  | x :: post, pre, s, s', hxs, hI, h => by
    rw [List.forIn_cons] at h
    obtain ⟨r, s₁, hx, h⟩ := bind_ok.1 h
    obtain ⟨rfl, hI₁⟩ := hf pre x post s s₁ r hxs hI hx
    exact forIn_invariant I hf post (pre ++ [x]) (by simp [hxs]) hI₁ h

/-- The parameters are declared in order under the method's parameter names,
    each in the next slots; no code is written. -/
theorem declareParams_ok {c : MethodContext} {s s' : GenState}
    (hlen : c.method.paramNames.length = c.method.params.length) (h : declareParams c s = .ok ((), s')) :
    s'.emitter = s.emitter ∧
      s'.scope = Scope.withVars s.scope c.method.span (c.method.paramNames.zip c.method.params) := by
  unfold declareParams at h
  obtain ⟨c', s₀, hc, h₁⟩ := bind_ok.1 h
  obtain ⟨hc', hs₀⟩ := read_ok.1 hc
  subst c' s₀
  obtain ⟨_, _, hloop, h₂⟩ := bind_ok.1 h₁
  obtain ⟨-, rfl⟩ := pure_ok.1 h₂
  -- the invariant: the parameters done so far are declared, in order
  let I : List (Ty × Nat) → GenState → Prop := fun pre s₁ => s₁.emitter = s.emitter ∧
    s₁.scope = Scope.withVars s.scope c.method.span ((c.method.paramNames.zip c.method.params).take pre.length)
  have hI : I c.method.params.zipIdx s' := by
    refine forIn_invariant I ?_ _ [] rfl ⟨rfl, rfl⟩ hloop
    intro pre x post s₂ s₃ r hxs hI₂ hx
    obtain ⟨t, i⟩ := x
    obtain ⟨rfl, ht⟩ := List.zipIdx_eq_append hxs
    obtain ⟨_, _, hd, hx⟩ := bind_ok.1 hx
    obtain ⟨sc, hdecl, rfl⟩ := withScope_ok.1 hd
    obtain ⟨rfl, rfl⟩ := pure_ok.1 hx
    obtain ⟨-, -, rfl⟩ := Scope.declare_ok hdecl
    have hi : pre.length < c.method.paramNames.length := by
      rw [hlen]
      exact (List.getElem?_eq_some_iff.1 ht).1
    have hz : (c.method.paramNames.zip c.method.params)[pre.length]? = some (c.method.paramNames[pre.length], t) :=
      List.getElem?_zip_eq_some.2 ⟨List.getElem?_eq_getElem hi, ht⟩
    refine ⟨rfl, hI₂.1, ?_⟩
    show Scope.withVar s₂.scope _ t c.method.span = _
    rw [List.length_append, List.length_singleton, List.take_add_one, hz, Option.toList_some,
      Scope.withVars_append, ← hI₂.2, List.getElem?_eq_getElem hi, Option.getD_some]
    rfl
  refine ⟨hI.1, ?_⟩
  rw [hI.2, List.length_zipIdx, List.take_of_length_le (by simp [hlen])]

end Params

/-! ### A compiled body -/

/-- Parameter types of the fragment, read one by one. -/
theorem paramTypes?_eq_some {f : FnDecl} {ps : List PTy} :
    paramTypes? f = some ps ↔ f.sig.params.map (fun p => PTy.ofTypeExpr? p.ty) = ps.map some := by
  unfold paramTypes?
  induction f.sig.params generalizing ps with
  | nil => cases ps <;> simp
  | cons p rest ih =>
    cases ps with
    | nil => simp [List.mapM_cons, Option.bind_eq_some_iff]
    | cons t ts => simp [List.mapM_cons, Option.bind_eq_some_iff, ih]

/-- A finished body is the code of the emitter, with the frame size asked for. -/
theorem Emitter.finish_ok {e : Emitter} {n : Nat} {code : Code} (h : e.finish n = .ok code) :
    code = ⟨e.code, n⟩ := by
  unfold Emitter.finish at h
  split at h
  · cases h
  · cases h
    rfl

/-- Code whose labels are placed once each. -/
theorem Emitter.LabelsOk.once {e : Emitter} (h : e.LabelsOk) : ∀ l, e.code.toList.count (.label l) ≤ 1 := by
  intro l
  rw [h l]
  split <;> omega

/-- A method body: the parameters, the statements, then a final `RETURN`
    where the end of a void method is reached; the statements of any other
    method always return. -/
theorem methodBody_ok {c : MethodContext} {fn : FnDecl} {s s' : GenState}
    (h : methodBody fn c s = .ok ((), s')) :
    ∃ s₀ s₁, declareParams c s = .ok ((), s₀) ∧ stmtList fn.body.stmts c s₀ = .ok ((), s₁) ∧
      (c.method.ret.isVoid = false → fn.body.alwaysReturns = true) ∧
      s' = if c.method.ret.isVoid && s₁.emitter.reachableEnd then
        { s₁ with emitter := s₁.emitter.emit .returnVoid } else s₁ := by
  unfold methodBody at h
  obtain ⟨_, s₀, hp, h₁⟩ := bind_ok.1 h
  obtain ⟨_, s₁, hb, h₂⟩ := bind_ok.1 h₁
  obtain ⟨c', s₂, hc, h₃⟩ := bind_ok.1 h₂
  obtain ⟨hc', hs₂⟩ := read_ok.1 hc
  subst c' s₂
  refine ⟨s₀, s₁, hp, hb, ?_⟩
  split at h₃
  · -- a void method
    rename_i hvoid
    obtain ⟨_, _, hg, h₄⟩ := bind_ok.1 h₃
    obtain ⟨rfl, rfl⟩ := get_ok.1 hg
    refine ⟨fun h => absurd hvoid (by simp [h]), ?_⟩
    split at h₄
    · rename_i hend
      simp only [hvoid, hend, Bool.and_self, if_true]
      exact out_ok.1 h₄
    · rename_i hend
      obtain ⟨-, rfl⟩ := pure_ok.1 h₄
      simp [hend]
  · rename_i hvoid
    split at h₃
    · exact absurd h₃ fail_ne
    · rename_i halw
      obtain ⟨-, rfl⟩ := pure_ok.1 h₃
      exact ⟨fun _ => by simpa using halw, by simp [hvoid]⟩

/-- The frame a call of `code` enters: the words of the arguments in the first
    slots, `top` in the others, and an empty stack. -/
def entryFrame (owner name : String) (code : Code) (args : List Value) : Frame :=
  ⟨owner, name, code, 0,
    (argWords args).toArray ++ Array.replicate (code.maxLocals - (argWords args).length) .top, [], .push⟩

/-- A static call enters the frame of the method's code. -/
theorem enter_static {m : State} {owner name desc : String} {cls : ClassRecord} {mr : MethodRecord}
    {code : Code} (hcls : m.classNamed? owner = some cls) (hmr : cls.method? name desc = some mr)
    (hcode : mr.code = some code) (args : List Value) :
    m.enter owner name desc none args .push = .ok (entryFrame owner name code args) := by
  simp only [State.enter, hcls, hmr, hcode, entryFrame, argWords, Option.toList_none, List.nil_append,
    List.size_toArray]
  rfl

/-- The machine answers a call as the source does: the frame hands back the
    result, of the return type `ret`, or the machine stops as the source
    does. -/
def MethodAnswer (n : Nat) (m : State) (ret : Ty) (f : Frame) (cs : List Frame) : Res (Option PVal) → Prop
  | .ok v => HasTy v ret ∧ Leaves m f cs (v.map PVal.toValue)
  | .error e => Stopped n m (f :: cs) e

/-- The end of a method body only appends, and leaves the scope. -/
theorem methodEnd_grows (s : GenState) (b : Bool) :
    Grows s (if b then { s with emitter := s.emitter.emit .returnVoid } else s) ∧
      (if b then { s with emitter := s.emitter.emit .returnVoid } else s).scope = s.scope := by
  cases b with
  | true => exact ⟨Grows.emit _, rfl⟩
  | false => exact ⟨Grows.refl s, rfl⟩

/-- A scope with nothing declared yet. -/
theorem scopeOk_forStatic : ScopeOk Scope.forStatic := ⟨by simp [Scope.forStatic], by simp [Scope.forStatic],
  by simp [Scope.forStatic], by simp [Scope.forStatic]⟩

theorem params_length {fn : FnDecl} {vals : List PVal} (hvals : paramTypes? fn = some (vals.map PVal.ty)) :
    fn.sig.params.length = vals.length := by
  simpa using congrArg List.length (paramTypes?_eq_some.1 hvals)

section Body

variable {c : MethodContext} {fn : FnDecl} {vals : List PVal} {n : Nat} {m : State} {lv : Level}

/-- After the parameters are declared, every parameter is in scope. -/
theorem params_in_scope {s₀ : GenState} (hlen : fn.sig.params.length = vals.length)
    (hsc : s₀.scope = Scope.withVars Scope.forStatic c.method.span
      ((fn.sig.params.map (·.name.name)).zip (vals.map fun a => a.ty.ty))) :
    ∀ x ∈ (fn.sig.params.map (·.name.name)).reverse, (s₀.scope.lookup? x).isSome := by
  obtain ⟨new, hx, hnames⟩ := Scope.withVars_extends c.method.span Scope.forStatic
    ((fn.sig.params.map (·.name.name)).zip (vals.map fun a => a.ty.ty))
  rw [← hsc] at hx
  refine hx.lookups (fun x (hx : x ∈ ([] : List String)) => absurd hx List.not_mem_nil) ?_
  rw [hnames, List.append_nil, List.map_fst_zip (by simp [hlen])]

/-- On entry, the slots hold the parameters bound to the arguments. -/
theorem entry_at {s₀ : GenState} {code : Code} (hlen : fn.sig.params.length = vals.length)
    (hsc : s₀.scope = Scope.withVars Scope.forStatic c.method.span
      ((fn.sig.params.map (·.name.name)).zip (vals.map fun a => a.ty.ty)))
    (hpc : s₀.emitter.code.size = 0) (owner name : String) :
    At (entryFrame owner name code (vals.map PVal.toValue)) s₀ (bindParams fn vals) := by
  have hL : argWords (vals.map PVal.toValue) <+:
      (entryFrame owner name code (vals.map PVal.toValue)).locals.toList.drop Scope.forStatic.next :=
    ⟨List.replicate (code.maxLocals - (argWords (vals.map PVal.toValue)).length) .top,
      by simp [entryFrame, Scope.forStatic]⟩
  obtain ⟨hmir, hnext⟩ := Scope.withVars_params c.method.span (fn.sig.params.map (·.name.name))
    (by simpa using hlen) (show Mirror _ Scope.forStatic.vars ([] : Env) from trivial) hL
  rw [← hsc] at hmir hnext
  refine ⟨hpc.symm, by simpa [bindParams] using hmir, hsc ▸ scopeOk_forStatic.withVars _, ?_⟩
  simp only [entryFrame, Array.size_append, List.size_toArray, Array.size_replicate]
  simp only [Scope.forStatic, Nat.zero_add] at hnext
  rw [hnext]
  exact Nat.le_add_right _ _

/-- The body of a function of the fragment, compiled as a static method and
    entered with arguments of its parameter types, runs as the source runs the
    function, at any level whose calls and loops do. -/
theorem body_sim (hfn : FragFn fn) (hc : GlobalCtx c) (hvals : paramTypes? fn = some (vals.map PVal.ty))
    (hparams : c.method.params = vals.map fun a => a.ty.ty)
    (hnames : c.method.paramNames = fn.sig.params.map (·.name.name)) {code : Code}
    (hcode : compileMethod c fn = .ok code) (hcalls : CallsOk c.table c.owner.name n m lv)
    (hloops : LoopsOk c n m lv) (owner name : String) (cs : List Frame) :
    MethodAnswer n m c.method.ret (entryFrame owner name code (vals.map PVal.toValue)) cs (callBody lv fn vals) := by
  unfold compileMethod at hcode
  obtain ⟨⟨_, s⟩, hrun, hfin⟩ := Except.bind_eq_ok.1 hcode
  simp only [hc.static, if_true] at hrun
  obtain ⟨s₀, s₁, hp, hb, hret, hs⟩ := methodBody_ok hrun
  obtain ⟨gEnd, hscEnd⟩ := methodEnd_grows s₁ (c.method.ret.isVoid && s₁.emitter.reachableEnd)
  rw [← hs] at gEnd hscEnd
  cases Emitter.finish_ok hfin
  have hlen := params_length hvals
  obtain ⟨he₀, hsc₀⟩ := declareParams_ok (by rw [hnames, hparams]; simpa using hlen) hp
  rw [hnames, hparams] at hsc₀
  -- the statements, from the entry with the parameters in scope
  obtain ⟨vars', hfrag⟩ := hfn.body
  have hin := params_in_scope hlen hsc₀
  obtain ⟨g₁, -, -, hopen⟩ := stmts_shape hc hfrag hb (hsc₀ ▸ scopeOk_forStatic.withVars _) hin
  have hroom : s₁.scope.next ≤ s.scope.maxLocals := by
    rw [hscEnd]
    exact Nat.le_refl _
  have hat : At (entryFrame owner name ⟨s.emitter.code, s.scope.maxLocals⟩ (vals.map PVal.toValue)) s₀
      (bindParams fn vals) :=
    entry_at hlen hsc₀ (by simp [he₀, Emitter.new]) owner name
  have hlabels : LabelsOnce ⟨s.emitter.code, s.scope.maxLocals⟩ :=
    Emitter.LabelsOk.once (gEnd.labels (g₁.labels (he₀ ▸ Emitter.labelsOk_new _)))
  have hans : StmtAnswer n m c.method.ret (entryFrame owner name ⟨s.emitter.code, s.scope.maxLocals⟩
      (vals.map PVal.toValue)) cs s₁ (execStmts lv (bindParams fn vals) fn.body.stmts) :=
    stmts_sim hc hcalls hloops hfrag hat hin hlabels gEnd.prefix_
      (Nat.le_trans hroom (by simp only [entryFrame, Array.size_append, List.size_toArray,
        Array.size_replicate]; omega)) hb
  rw [callBody]
  cases hr : execStmts lv (bindParams fn vals) fn.body.stmts with
  | error e =>
    rw [hr] at hans
    exact hans
  | ok r =>
    rw [hr] at hans
    cases r with
    | returned v => exact hans
    | normal env' =>
      -- the end of the statements is reached: only a void method gets there
      have hany := execStmts_normal hr
      cases hvoid : c.method.ret.isVoid with
      | false =>
        have := hret hvoid
        rw [Syntax.Block.alwaysReturns_eq, hany] at this
        cases this
      | true =>
        have hend : s₁.emitter.reachableEnd = true := hopen hany (by rw [he₀]; rfl)
        obtain ⟨k, L, hL, hmv, -⟩ := hans
        have hi : (entryFrame owner name ⟨s.emitter.code, s.scope.maxLocals⟩
            (vals.map PVal.toValue)).code.instructions[s₁.emitter.code.size]? = some (.simple .returnVoid) := by
          simp [entryFrame, hs, hvoid, hend, Emitter.emit_code]
        refine ⟨Ty.eq_void_of_isVoid hvoid, Leaves.of_moves hmv (Leaves.of_return hi ?_)⟩
        exact exec_simple_ret simple_return

end Body

/-! ### Static calls -/

/-- A type written as one letter of a descriptor: `void` and the types of the
    fragment. -/
def Ty.OneLetter (t : Ty) : Prop := ∃ ch, t.descriptor.toList = [ch] ∧ Ty.ofLetter? ch = some t

theorem PTy.oneLetter (p : PTy) : Ty.OneLetter p.ty := by
  cases p <;> exact ⟨_, rfl, rfl⟩

theorem Ty.oneLetter_void : Ty.OneLetter .void := ⟨_, rfl, rfl⟩

/-- A type written as one letter reads back from its descriptor. -/
theorem Ty.OneLetter.readable {t : Ty} (h : Ty.OneLetter t) : t.Readable := by
  obtain ⟨ch, -, hlet⟩ := h
  unfold Ty.ofLetter? at hlet
  split at hlet <;> cases hlet <;> trivial

/-- The type of a method of the fragment reads back from its descriptor. -/
theorem MethodType.ofDescriptor_prim (ps : List PTy) {ret : Ty} (hret : Ty.OneLetter ret) :
    MethodType.ofDescriptor (MethodType.mk (ps.map PTy.ty) ret).descriptor = .ok ⟨ps.map PTy.ty, ret⟩ := by
  refine MethodType.ofDescriptor_descriptor ⟨fun p hp => ?_, hret.readable⟩
  obtain ⟨q, -, rfl⟩ := List.mem_map.1 hp
  exact ⟨(PTy.oneLetter q).readable, by cases q <;> nofun⟩

/-- Arguments pushed one after the other are popped back, the last one first,
    by a loop whose rounds each pop one value. The arguments are named here
    last first, as they come off. -/
theorem foldlM_pop_pushArgs {α : Type} {g : List Value × List Value → α → Except Fault (List Value × List Value)}
    (hg : ∀ acc v st x, v ≠ .top → g (acc, Stack.push v st) x = .ok (v :: acc, st)) (st : List Value) :
    ∀ (rs : List PVal) (ts : List α) (acc : List Value), ts.length = rs.length →
      ts.foldlM g (acc, pushArgs rs.reverse st) = .ok (rs.reverse.map PVal.toValue ++ acc, st)
  | [], ts, acc, hlen => by
    rw [List.length_eq_zero_iff.1 hlen]
    rfl
  | a :: rs, ts, acc, hlen => by
    obtain ⟨t, ts', rfl⟩ := List.exists_cons_of_length_eq_add_one hlen
    have hpush : pushArgs (a :: rs).reverse st = Stack.push a.toValue (pushArgs rs.reverse st) := by
      simp [pushArgs, List.foldl_append]
    rw [hpush, List.foldlM_cons, hg _ _ _ _ (PVal.toValue_ne_top a)]
    show ts'.foldlM g (a.toValue :: acc, pushArgs rs.reverse st) = _
    rw [foldlM_pop_pushArgs hg st rs ts' _ (Nat.succ.inj hlen)]
    simp

/-- The arguments of a static call of the fragment come off the stack in
    order. -/
theorem popArgs_static (vals : List PVal) {ret : Ty} (hret : Ty.OneLetter ret) (st : List Value) :
    popArgs .invokestatic (MethodType.mk (vals.map fun a => a.ty.ty) ret).descriptor (pushArgs vals st) =
      .ok (none, vals.map PVal.toValue, st) := by
  have hmap : (vals.map fun a => a.ty.ty) = (vals.map PVal.ty).map PTy.ty := by simp
  unfold popArgs
  rw [hmap, MethodType.ofDescriptor_prim _ hret]
  simp only [bind, Except.bind, pure, Except.pure]
  rw [← List.reverse_reverse vals, foldlM_pop_pushArgs ?_ st vals.reverse _ [] (by simp)]
  · simp
  · intro acc v st' _ hv
    simp [Stack.pop_push hv]

/-- A static call the compiler emits for arguments of the fragment starts the
    frame of the method the machine holds. -/
theorem exec_invoke_static {m : State} {f : Frame} {d : TypeDecl} {sig : MethodSig} {cls : ClassRecord}
    {mr : MethodRecord} {code : Code} {vals : List PVal} {st : List Value} (hstatic : sig.isStatic = true)
    (hparams : sig.params = vals.map fun a => a.ty.ty) (hret : Ty.OneLetter sig.ret)
    (hcls : m.classNamed? d.name = some cls) (hmr : cls.method? sig.name sig.descriptor = some mr)
    (hcode : mr.code = some code) (hstack : f.stack = pushArgs vals st) :
    exec m f (invokeInstruction d sig) =
      .ok (.call m { f with stack := st } (entryFrame d.name sig.name code (vals.map PVal.toValue))) := by
  have htype : sig.type = MethodType.mk (vals.map fun a => a.ty.ty) sig.ret := by
    simp only [MethodSig.type, hparams]
  have hknows : m.knows d.name = true := by simp [State.knows, hcls]
  rw [MethodSig.descriptor, htype] at hmr
  simp only [invokeInstruction, hstatic, if_true, Emitter.invokeRef, exec, htype, hstack,
    popArgs_static vals hret st]
  simp [invoke, hknows, enter_static hcls hmr hcode, bind, Except.bind, pure, Except.pure]

/-! ### Every level -/

/-- The method found for a call fits the types of its arguments. -/
theorem findCallable_fits {tbl : ClassTable} {owner name : String} {ts : List Ty} {d : TypeDecl}
    {sig : MethodSig} (h : findCallable? tbl owner name ts false = some (d, sig)) :
    MethodType.fits sig.params ts = true := by
  obtain ⟨d', _, hd'⟩ := List.exists_of_findSome?_eq_some h
  obtain ⟨m', hm', hpair⟩ := Option.map_eq_some_iff.1 hd'
  cases hpair
  have := List.find?_some hm'
  simp only [Bool.false_or, Bool.and_eq_true] at this
  exact this.2

/-- Parameters fit arguments of the fragment only where they have their types:
    no argument is `null`. -/
theorem fits_prim : ∀ {ps : List Ty} {vals : List PVal},
    MethodType.fits ps (vals.map fun a => a.ty.ty) = true → ps = vals.map fun a => a.ty.ty
  | [], [], _ => rfl
  | [], _ :: _, h => by simp [MethodType.fits] at h
  | _ :: _, [], h => by simp [MethodType.fits] at h
  | p :: ps, a :: vals, h => by
    have hnull : a.ty.ty.isNull = false := by cases a <;> rfl
    simp only [MethodType.fits, List.length_cons, List.map_cons, List.zip_cons_cons, List.all_cons, hnull,
      Bool.false_or, Bool.and_eq_true, beq_iff_eq, Nat.add_right_cancel_iff] at h
    rw [h.2.1, @fits_prim ps vals (by simp [MethodType.fits, h.1, h.2.2])]
    rfl

/-- The function a call runs has the argument types as its parameter types. -/
theorem resolve_params {fns : List FnDecl} {name : String} {vals : List PVal} {fn : FnDecl}
    (h : resolve fns name vals = some fn) : paramTypes? fn = some (vals.map PVal.ty) := by
  have := List.find?_some h
  simp only [Bool.and_eq_true, beq_iff_eq] at this
  exact this.2

/-- The code `code` is compiled, in the context `c`, for the function `fn` of
    the fragment as the static method `sig` of the class `owner` of `tbl`. -/
structure Compiled (tbl : ClassTable) (owner : String) (fn : FnDecl) (sig : MethodSig) (c : MethodContext)
    (code : Code) : Prop where
  frag : FragFn fn
  global : GlobalCtx c
  table : c.table = tbl
  owner : c.owner.name = owner
  method : c.method = sig
  names : sig.paramNames = fn.sig.params.map (·.name.name)
  ret : Ty.OneLetter sig.ret
  code : compileMethod c fn = .ok code

/-- The machine holds the code compiled for the functions `fns` in the class
    `owner` of `tbl`: the method a static call there resolves to, in the class
    it is found in, is the code compiled for the function the source resolves
    the call to. -/
def Installed (tbl : ClassTable) (owner : String) (m : State) (fns : List FnDecl) : Prop :=
  ∀ {name : String} {vals : List PVal} {d : TypeDecl} {sig : MethodSig},
    findCallable? tbl owner name (vals.map fun a => a.ty.ty) false = some (d, sig) →
    ∃ fn c code cls mr, resolve fns name vals = some fn ∧ Compiled tbl owner fn sig c code ∧
      m.classNamed? d.name = some cls ∧ cls.method? sig.name sig.descriptor = some mr ∧ mr.code = some code

section Levels

variable {tbl : ClassTable} {owner : String} {m : State} {fns : List FnDecl}

/-- The frame a call returns to, with the result pushed. -/
theorem resumeWith_push (f : Frame) (v : Option PVal) :
    f.resumeWith .push (v.map PVal.toValue) = { f with stack := pushOpt v f.stack } := by
  cases v <;> rfl

/-- Without levels left every call runs out of them. -/
theorem calls_zero : CallsOk tbl owner 0 m (levels fns 0) := by
  intro name vals d sig f cs st _ _ _ fuel hfuel
  exact absurd hfuel (Nat.not_lt_zero fuel)

theorem loops_zero {c : MethodContext} : LoopsOk c 0 m (levels fns 0) := by
  intro vars cond body sp f cs s s' env _ _ _ _ _ _ _ _ fuel hfuel
  exact absurd hfuel (Nat.not_lt_zero fuel)

/-- Calls one level up: the call enters the frame of the compiled function,
    whose body runs as the source runs it one level down. -/
theorem calls_succ (hI : Installed tbl owner m fns) {n : Nat} (hcalls : CallsOk tbl owner n m (levels fns n))
    (hloops : ∀ c : MethodContext, GlobalCtx c → c.table = tbl → c.owner.name = owner → LoopsOk c n m (levels fns n)) :
    CallsOk tbl owner (n + 1) m (levels fns (n + 1)) := by
  intro name vals d sig f cs st hfind hi hstack
  obtain ⟨fn, c, code, cls, mr, hres, hC, hcls, hmr, hcode⟩ := hI hfind
  have hcall : (levels fns (n + 1)).call name vals = callBody (levels fns n) fn vals := by
    simp [levels, hres]
  have hsig : sig.params = vals.map fun a => a.ty.ty := fits_prim (findCallable_fits hfind)
  have hmv : Moves m (f :: cs) 1 m (entryFrame d.name sig.name code (vals.map PVal.toValue) ::
      { f with pc := f.pc + 1, stack := st } :: cs) :=
    Moves.of_call hi (exec_invoke_static (findCallable_static hfind) hsig hC.ret hcls hmr hcode hstack)
  have hbody := body_sim hC.frag hC.global (resolve_params hres) (hC.method ▸ hsig) (hC.method ▸ hC.names)
    hC.code (hC.table ▸ hC.owner ▸ hcalls) (hloops c hC.global hC.table hC.owner) d.name sig.name
    ({ f with pc := f.pc + 1, stack := st } :: cs)
  rw [hC.method, ← hcall] at hbody
  rw [hcall] at hbody ⊢
  cases hr : callBody (levels fns n) fn vals with
  | error e =>
    rw [hr] at hbody
    exact Stopped.succ_of_moves (k := 0) hmv hbody
  | ok v =>
    rw [hr] at hbody
    obtain ⟨hty, j, hj⟩ := hbody
    refine ⟨hty, 1 + j, ?_⟩
    have hresume : (entryFrame d.name sig.name code (vals.map PVal.toValue)).resume = .push := rfl
    rw [hresume, resumeWith_push] at hj
    exact hmv.trans hj

/-- Loops one level up: the head of the loop, then the next round one level
    down, where the loop runs as its code. -/
theorem loops_succ {c : MethodContext} {n : Nat} {lv lv' : Level} (hc : GlobalCtx c)
    (hcalls : CallsOk c.table c.owner.name n m lv) (hloops : LoopsOk c n m lv)
    (hloop : ∀ cond body env, lv'.loop cond body env = execStmt lv env (.while cond body default)) :
    LoopsOk c (n + 1) m lv' := by
  intro vars cond body sp f cs s s' env hcond hbody h hat hin hlab hpre hroom
  have hshape : BlockShape c body vars := block_shape hc hbody
  have hpre₀ := (while_head_within hc hcond hshape h hat.scope hin).trans hpre
  obtain ⟨hmv, hat₁⟩ := loop_head hat hpre₀ m cs
  -- where the loop stands in the source does not change what it does
  have hspan : execStmt lv env (.while cond body default) = execStmt lv env (.while cond body sp) := by
    rw [execStmt, execStmt]
  rw [hloop, hspan]
  exact StmtAnswer.succ_of_moves (k := 0) hmv
    (loop_sim hc hcalls hloops hcond hbody hshape (block_sim hc hcalls hloops hbody) h hat₁ hin hlab hpre hroom)

/-- At every level, calls and loops run as their code: induction on the
    levels, each one built from the one below. -/
theorem levels_ok (hI : Installed tbl owner m fns) : ∀ n, CallsOk tbl owner n m (levels fns n) ∧
    ∀ c : MethodContext, GlobalCtx c → c.table = tbl → c.owner.name = owner → LoopsOk c n m (levels fns n)
  | 0 => ⟨calls_zero, fun _ _ _ _ => loops_zero⟩
  | n + 1 =>
    have ih := levels_ok hI n
    ⟨calls_succ hI ih.1 ih.2, fun c hc ht ho =>
      loops_succ hc (ht ▸ ho ▸ ih.1) (ih.2 c hc ht ho) fun _ _ _ => rfl⟩

end Levels

end ClassCompiler.Primitive
