import ClassCompiler.Proofs.Codegen.Returns

/-!
# Compiling a body fails only for a fault of the program

An internal error is a broken invariant of the compiler, not a fault of the
program it compiles. Compiling a method body never reports one: every failure
of a generator is one of the faults it checks, and the one internal error of
finishing a body, a jump to a label never placed, cannot arise, as the body is
a piece of code of its own (`Gen.Confined`) begun on a fresh emitter.

* `CompilationError.IsFault`: every error but `internal`;
* `Gen.Faults g`: every failed run of `g` fails with a fault; generators built
  with `bind` from such generators are such generators;
* `expr_faults`, `stmt_faults`, `methodBody_faults`: every construct;
* `Emitter.finish_of_confined`: a body that is a piece of its own finishes;
* `compileMethod_fault`: compiling a body fails only with a fault.
-/

namespace ClassCompiler

open Syntax

/-- A fault of the program compiled: any compilation error but a broken
    invariant of the compiler. -/
def CompilationError.IsFault (e : CompilationError) : Prop := ∀ m, e ≠ .internal m

/-! ### Local slots -/

/-- Taking slots fails only when there are too many. -/
theorem Scope.allocate_fault {sc : Scope} {t : Ty} {sp : Span} {e : CompilationError}
    (h : sc.allocate t sp = .error e) : e.IsFault := by
  unfold Scope.allocate at h
  dsimp only at h
  split at h
  · cases h
    intro m h
    cases h
  · cases h

theorem Except.bind_eq_error {ε α β : Type} {x : Except ε α} {f : α → Except ε β} {e : ε} :
    x >>= f = .error e ↔ x = .error e ∨ ∃ a, x = .ok a ∧ f a = .error e := by
  cases x <;> simp [bind, Except.bind]

/-- Declaring a variable fails only for a second declaration in scope, or for
    too many slots. -/
theorem Scope.declare_fault {sc : Scope} {n : String} {t : Ty} {sp : Span} {e : CompilationError}
    (h : sc.declare n t sp = .error e) : e.IsFault := by
  unfold Scope.declare at h
  split at h
  · cases h
    intro m h
    cases h
  · rcases Except.bind_eq_error.1 h with h | ⟨⟨_, _⟩, -, h⟩
    · exact Scope.allocate_fault h
    · cases h

namespace Gen

variable {α β : Type} {c : MethodContext} {s : GenState}

theorem bind_error {x : Gen α} {f : α → Gen β} {e : CompilationError} :
    (x >>= f) c s = .error e ↔ x c s = .error e ∨ ∃ a s', x c s = .ok (a, s') ∧ f a c s' = .error e := by
  simp only [bind, ReaderT.bind, StateT.bind, Except.bind]
  cases h : x c s with
  | error e' => simp
  | ok p =>
    obtain ⟨a, s'⟩ := p
    simp only [reduceCtorEq, false_or]
    constructor
    · intro h'
      exact ⟨a, s', rfl, h'⟩
    · rintro ⟨_, _, h'', h'⟩
      cases h''
      exact h'

/-- Every failed run of `g` fails with a fault of the program. -/
def Faults (g : Gen α) : Prop := ∀ c s e, g c s = .error e → e.IsFault

namespace Faults

theorem bind {x : Gen α} {f : α → Gen β} (hx : Faults x) (hf : ∀ a, Faults (f a)) : Faults (x >>= f) := by
  intro c s e h
  rcases bind_error.1 h with h | ⟨a, s', -, h⟩
  · exact hx c s e h
  · exact hf a c s' e h

/-- A generator that never fails. -/
theorem of_total {g : Gen α} (h : ∀ c s, ∃ p, g c s = .ok p) : Faults g := by
  intro c s e he
  obtain ⟨p, hp⟩ := h c s
  rw [hp] at he
  cases he

theorem pure (a : α) : Faults (pure a : Gen α) := of_total fun _ s => ⟨(a, s), rfl⟩

theorem read : Faults (read : Gen MethodContext) := of_total fun c s => ⟨(c, s), rfl⟩

theorem get : Faults (get : Gen GenState) := of_total fun _ s => ⟨(s, s), rfl⟩

theorem set (s' : GenState) : Faults (set s' : Gen Unit) := of_total fun _ _ => ⟨((), s'), rfl⟩

theorem modify (f : GenState → GenState) : Faults (modify f : Gen Unit) :=
  of_total fun _ s => ⟨((), f s), rfl⟩

theorem out (f : Emitter → Emitter) : Faults (out f) := modify _

theorem mark : Faults mark := of_total fun _ _ => ⟨_, rfl⟩

theorem newLabel : Faults newLabel := of_total fun _ _ => ⟨_, rfl⟩

theorem fail {e : CompilationError} (he : e.IsFault) : Faults (fail e : Gen α) := by
  intro c s e' h
  cases h
  exact he

/-- A generator that fails first fails with that fault. -/
theorem fail_bind {e : CompilationError} (he : e.IsFault) (f : α → Gen β) : Faults (Gen.fail e >>= f) := by
  intro c s e' h
  rcases bind_error.1 h with h | ⟨_, _, h, -⟩
  · cases h
    exact he
  · cases h

theorem mismatch (m : Mismatch) (sp : Span) : Faults (mismatch m sp : Gen α) :=
  fail fun _ h => by cases h

theorem mismatch_bind (m : Mismatch) (sp : Span) (f : α → Gen β) : Faults (Gen.mismatch m sp >>= f) :=
  fail_bind (fun _ h => by cases h) f

theorem liftExcept {r : Except CompilationError α} (hr : ∀ e, r = .error e → e.IsFault) :
    Faults (liftExcept r) := by
  intro c s e h
  cases r with
  | ok a => cases h
  | error e' =>
    cases h
    exact hr _ rfl

theorem ite {p : Prop} [Decidable p] {x y : Gen α} (hx : Faults x) (hy : Faults y) :
    Faults (if p then x else y) := by
  split
  · exact hx
  · exact hy

theorem map {x : Gen α} {f : α → β} (hx : Faults x) : Faults (f <$> x) := by
  rw [← bind_pure_comp]
  exact hx.bind fun _ => pure _

theorem withScope {f : Scope → Except CompilationError (α × Scope)}
    (hf : ∀ sc e, f sc = .error e → e.IsFault) : Faults (withScope f) := by
  unfold Gen.withScope
  refine get.bind fun st => (liftExcept (hf st.scope)).bind fun p => ?_
  exact (set _).bind fun _ => pure _

theorem resolveKnown (t : TypeExpr) : Faults (resolveKnown t) := by
  unfold Gen.resolveKnown
  refine read.bind fun c => liftExcept fun e h => ?_
  unfold MethodContext.resolveKnown at h
  dsimp only at h
  split at h
  · split at h
    · cases h
    · cases h
      intro m h
      cases h
  · cases h

theorem requireValue (sp : Span) (t : Ty) : Faults (requireValue sp t) := by
  unfold Gen.requireValue
  split
  · exact mismatch _ _
  · exact mismatch _ _
  · exact pure _

theorem expectBool (site : BoolSite) (t : Ty) (sp : Span) : Faults (expectBool site t sp) :=
  ite (pure _) (mismatch _ _)

end Faults

/-! ### The parts of expressions -/

section Parts

theorem literal_faults : ∀ l : Literal, Faults (literal l)
  | .int _ | .long _ | .float _ | .double _ | .bool _ | .string _ | .null =>
    (Faults.out _).bind fun _ => .pure _

theorem pushThis_faults (sp : Span) : Faults (pushThis sp) := by
  unfold pushThis
  refine Faults.read.bind fun c => ?_
  refine Faults.ite ((Faults.fail fun _ h => by cases h).bind fun _ => ?_) ?_
  all_goals exact (Faults.out _).bind fun _ => Faults.ite ((Faults.out _).bind fun _ => .pure _) (.pure _)

theorem identifier_faults (id : Ident) : Faults (identifier id) := by
  unfold identifier
  refine Faults.read.bind fun c => Faults.get.bind fun st => ?_
  dsimp only
  split
  · exact (Faults.out _).bind fun _ => .pure _
  · refine Faults.ite (pushThis_faults _) ?_
    split
    · refine Faults.ite ((Faults.out _).bind fun _ => .pure _) ?_
      exact (pushThis_faults _).bind fun _ => (Faults.out _).bind fun _ => .pure _
    · split
      · exact .pure _
      · exact Faults.fail fun _ h => by cases h

theorem isValueName_faults (n : String) : Faults (isValueName n) :=
  Faults.read.bind fun _ => Faults.get.bind fun _ => .pure _

theorem typePath_faults : ∀ e : Expr, Faults (typePath e)
  | .ident id => by
    rw [typePath]
    exact (isValueName_faults _).bind fun _ => .pure _
  | .field obj _ _ => by
    rw [typePath]
    exact (typePath_faults obj).bind fun _ => .pure _
  | .lit .. | .binary .. | .unary .. | .assign .. | .call .. | .method .. | .index .. | .cast ..
  | .newObj .. | .array .. | .paren .. => .pure _

theorem staticReceiver_faults (obj : Expr) : Faults (staticReceiver? obj) := by
  unfold staticReceiver?
  refine (typePath_faults obj).bind fun p => ?_
  split
  · exact Faults.read.bind fun _ => .pure _
  · exact .pure _

theorem valueReceiver_faults (sp : Span) (t : Ty) : Faults (valueReceiver sp t) := by
  unfold valueReceiver
  split
  · split
    · exact .pure _
    · exact .mismatch _ _
  · exact .mismatch _ _
  · exact .pure _

theorem fieldRead_faults (r : Receiver) (n : String) (sp : Span) : Faults (fieldRead r n sp) := by
  unfold fieldRead
  refine Faults.read.bind fun c => ?_
  dsimp only
  split
  · split
    · exact Faults.fail fun _ h => by cases h
    · refine Faults.ite ((Faults.out _).bind fun _ => .pure _) ?_
      exact (Faults.mismatch _ _).bind fun _ => (Faults.out _).bind fun _ => .pure _
  · exact Faults.ite ((Faults.out _).bind fun _ => .pure _) (Faults.fail fun _ h => by cases h)
  · split
    · exact Faults.fail fun _ h => by cases h
    · exact Faults.ite ((Faults.out _).bind fun _ => .pure _) ((Faults.out _).bind fun _ => .pure _)
  · exact Faults.fail fun _ h => by cases h

theorem emitInvoke_faults (d : TypeDecl) (m : MethodSig) : Faults (emitInvoke d m) := Faults.out _

theorem unary_faults (op : UnOp) (t : Ty) (sp : Span) : Faults (unary op t sp) := by
  unfold unary
  split
  · split
    · exact (Faults.out _).bind fun _ => .pure _
    · exact .mismatch _ _
  · exact (Faults.expectBool _ _ _).bind fun _ => (Faults.out _).bind fun _ => .pure _

theorem binary_faults (op : BinOp) (l r : Ty) (sp : Span) : Faults (binary op l r sp) := by
  unfold binary
  dsimp only
  refine Faults.ite ((Faults.expectBool _ _ _).bind fun _ => (Faults.expectBool _ _ _).bind fun _ =>
    (Faults.out _).bind fun _ => .pure _) ?_
  split
  · split
    · exact .mismatch _ _
    · exact (Faults.out _).bind fun _ => Faults.newLabel.bind fun _ => Faults.newLabel.bind fun _ =>
        (Faults.out _).bind fun _ => .pure _
  · split
    · exact (Faults.out _).bind fun _ => .pure _
    · exact .mismatch _ _

theorem bareCall_faults (n : String) (args : List Ty) (m : Nat) (sp : Span) :
    Faults (bareCall n args m sp) := by
  unfold bareCall
  refine Faults.read.bind fun c => ?_
  lift_lets
  intro viaHolder found
  -- with no method of the class, a static method of the holder
  have hfound : ∀ t, Faults (found t) := by
    intro t
    simp only [found]
    split
    · exact .pure _
    · generalize viaHolder = v
      split
      · exact (emitInvoke_faults _ _).bind fun _ => .pure _
      · exact Faults.fail fun _ h => by cases h
  have hcall : ∀ d m', Faults (emitInvoke d m' >>= fun _ => Pure.pure (some m'.ret) >>= found) :=
    fun _ _ => (emitInvoke_faults _ _).bind fun _ => (Faults.pure _).bind hfound
  split
  · split
    · exact (Faults.out _).bind fun _ => hcall _ _
    · split
      · exact Faults.ite (hcall _ _) ((Faults.out _).bind fun _ => hcall _ _)
      · exact (Faults.pure _).bind hfound
  · split
    · exact Faults.ite (hcall _ _) ((Faults.out _).bind fun _ => hcall _ _)
    · exact (Faults.pure _).bind hfound

theorem staticCall_faults (o n : String) (args : List Ty) (sp : Span) : Faults (staticCall o n args sp) := by
  unfold staticCall
  refine Faults.read.bind fun _ => ?_
  dsimp only
  split
  · exact Faults.fail fun _ h => by cases h
  · exact Faults.ite ((emitInvoke_faults _ _).bind fun _ => .pure _)
      ((Faults.mismatch _ _).bind fun _ => (emitInvoke_faults _ _).bind fun _ => .pure _)

theorem methodCall_faults (t : Ty) (n : String) (args : List Ty) (m : Nat) (sp : Span) :
    Faults (methodCall t n args m sp) := by
  unfold methodCall
  refine Faults.read.bind fun c => ?_
  lift_lets
  intro noMethod withOwner
  have hno : noMethod.IsFault := by
    intro _ h
    simp only [noMethod] at h
    cases h
  -- the method of the owner, or of a trait it implements, called through the adapter
  have howner : ∀ o, Faults (withOwner o) := by
    intro o
    simp only [withOwner]
    split
    · exact Faults.ite ((Faults.out _).bind fun _ => (emitInvoke_faults _ _).bind fun _ => .pure _)
        ((emitInvoke_faults _ _).bind fun _ => .pure _)
    · split
      · exact (Faults.out _).bind fun _ => .pure _
      · exact Faults.fail hno
  split
  · exact (Faults.pure _).bind howner
  · exact (Faults.pure _).bind howner
  · exact (Faults.fail hno).bind howner

/-- The reflective cast takes a temporary slot, which may be one too many. -/
theorem reflectiveCast_faults (tr : String) : Faults (reflectiveCast tr) := by
  unfold reflectiveCast
  exact Faults.read.bind fun _ => (Faults.withScope fun _ _ => Scope.allocate_fault).bind fun _ =>
    Faults.out _

theorem traitCast_faults (t : Ty) (tr : String) : Faults (traitCast t tr) := by
  unfold traitCast
  refine Faults.read.bind fun _ => ?_
  split
  · exact reflectiveCast_faults _
  · split
    · exact Faults.out _
    · exact reflectiveCast_faults _

theorem cast_faults (target t : Ty) (sp : Span) : Faults (cast target t sp) := by
  unfold cast
  refine Faults.ite (.pure _) ?_
  lift_lets
  intro invalid done checked
  have hinvalid : invalid.IsFault := by
    intro _ h
    simp only [invalid] at h
    cases h
  -- a reference cast: `CHECKCAST`, or a trait cast
  have hchecked : ∀ u, Faults (checked u) := by
    intro u
    simp only [checked, done]
    refine Faults.read.bind fun c => ?_
    split
    · refine Faults.ite ?_ ?_
      · exact (traitCast_faults _ _).bind fun _ => .pure _
      · exact (Faults.out _).bind fun _ => .pure _
    · split
      · exact (Faults.out _).bind fun _ => .pure _
      · exact (Faults.fail hinvalid).bind fun _ => .pure _
  refine Faults.ite ((Faults.out _).bind fun _ => .pure _) ?_
  exact Faults.ite (hchecked ()) ((Faults.fail hinvalid).bind hchecked)

theorem instantiate_faults (t : Ty) (sp : Span) : Faults (instantiate t sp) := by
  unfold instantiate
  refine Faults.read.bind fun _ => ?_
  dsimp only
  split
  · exact Faults.fail fun _ h => by cases h
  · exact (Faults.out _).bind fun _ => .pure _

theorem construct_faults (d : TypeDecl) (t : Ty) (args : List Ty) (sp : Span) :
    Faults (construct d t args sp) := by
  unfold construct
  split
  · exact Faults.fail fun _ h => by cases h
  · dsimp only
    refine Faults.ite ((Faults.out _).bind fun _ => ?_) ?_
    all_goals exact (Faults.out _).bind fun _ => .pure _

/-- An array literal of more elements than an `int` counts is refused. -/
theorem fillArray_faults (elem : Ty) (count : Nat) (sp : Span) : Faults (fillArray elem count sp) := by
  unfold fillArray
  dsimp only
  refine Faults.ite ((Faults.fail fun _ h => by cases h).bind fun _ => ?_) ?_
  all_goals exact (Faults.out _).bind fun _ => .pure _

theorem elementOf_faults (t : Ty) (sp : Span) : Faults (elementOf t sp) := by
  unfold elementOf
  split
  · exact .pure _
  · exact .mismatch _ _

theorem checkIndex_faults (t : Ty) (sp : Span) : Faults (checkIndex t sp) :=
  Faults.ite (.pure _) (.mismatch _ _)

theorem identTarget_faults (id : Ident) : Faults (identTarget id) := by
  unfold identTarget
  refine Faults.read.bind fun c => Faults.get.bind fun st => ?_
  dsimp only
  split
  · exact .pure _
  · refine Faults.ite (Faults.fail_bind (fun _ h => by cases h) _) ?_
    split
    · exact Faults.ite (.pure _) ((pushThis_faults _).bind fun _ => .pure _)
    · exact Faults.ite (Faults.fail_bind (fun _ h => by cases h) _) (Faults.fail fun _ h => by cases h)

theorem fieldTarget_faults (r : Receiver) (n : String) (sp : Span) : Faults (fieldTarget r n sp) := by
  unfold fieldTarget
  refine Faults.read.bind fun c => ?_
  dsimp only
  split
  · split
    · exact Faults.fail fun _ h => by cases h
    · exact Faults.ite (.pure _) ((Faults.mismatch _ _).bind fun _ => .pure _)
  · split
    · exact Faults.fail fun _ h => by cases h
    · exact Faults.ite ((Faults.out _).bind fun _ => .pure _) (.pure _)
  · exact Faults.ite (Faults.fail fun _ h => by cases h) (Faults.fail fun _ h => by cases h)

theorem storeTo_faults (lv : LValue) : Faults (storeTo lv) := by
  cases lv <;> (rw [storeTo]; exact Faults.out _)

end Parts

/-! ### Expressions -/

mutual

theorem expr_faults : ∀ e : Expr, Faults (expr e)
  | .lit l _ => by
    rw [expr]
    exact literal_faults l
  | .ident id => by
    rw [expr]
    exact identifier_faults id
  | .paren e _ => by
    rw [expr]
    exact expr_faults e
  | .binary op l r sp => by
    rw [expr]
    exact (expr_faults l).bind fun _ => (Faults.requireValue _ _).bind fun _ =>
      (expr_faults r).bind fun _ => (Faults.requireValue _ _).bind fun _ => binary_faults _ _ _ _
  | .unary op e sp => by
    rw [expr]
    exact (expr_faults e).bind fun _ => (Faults.requireValue _ _).bind fun _ => unary_faults _ _ _
  | .assign target value sp => by
    rw [expr]
    refine (assignTarget_faults target).bind fun lv => (expr_faults value).bind fun _ =>
      (Faults.requireValue _ _).bind fun _ => ?_
    dsimp only
    exact Faults.ite ((storeTo_faults lv).bind fun _ => .pure _) (Faults.mismatch_bind _ _ _)
  | .call callee args sp => by
    rw [expr]
    exact Faults.mark.bind fun _ => (arguments_faults args).bind fun _ => bareCall_faults _ _ _ _
  | .field obj name sp => by
    rw [expr]
    refine (staticReceiver_faults obj).bind fun r => ?_
    split
    · exact fieldRead_faults _ _ _
    · exact (expr_faults obj).bind fun _ => (valueReceiver_faults _ _).bind fun _ => fieldRead_faults _ _ _
  | .method obj name args sp => by
    rw [expr]
    refine (staticReceiver_faults obj).bind fun r => ?_
    split
    · exact (arguments_faults args).bind fun _ => staticCall_faults _ _ _ _
    · refine (expr_faults obj).bind fun _ => (valueReceiver_faults _ _).bind fun r => ?_
      split
      · exact (arguments_faults args).bind fun _ => staticCall_faults _ _ _ _
      · exact Faults.mark.bind fun _ => (arguments_faults args).bind fun _ => methodCall_faults _ _ _ _ _
  | .index obj idx sp => by
    rw [expr]
    exact (expr_faults obj).bind fun _ => (Faults.requireValue _ _).bind fun _ =>
      (elementOf_faults _ _).bind fun _ => (expr_faults idx).bind fun _ =>
      (Faults.requireValue _ _).bind fun _ => (checkIndex_faults _ _).bind fun _ =>
      (Faults.out _).bind fun _ => .pure _
  | .cast target e sp => by
    rw [expr]
    exact (Faults.resolveKnown _).bind fun _ => (expr_faults e).bind fun _ =>
      (Faults.requireValue _ _).bind fun _ => cast_faults _ _ _
  | .newObj ty args sp => by
    rw [expr]
    exact (Faults.resolveKnown _).bind fun _ => (instantiate_faults _ _).bind fun _ =>
      (arguments_faults args).bind fun _ => construct_faults _ _ _ _
  | .array elemTy elems sp => by
    rw [expr]
    refine (Faults.resolveKnown _).bind fun _ => ?_
    dsimp only
    refine Faults.ite (Faults.mismatch_bind _ _ _) ?_
    exact (elements_faults _ elems).bind fun _ => fillArray_faults _ _ _

theorem arguments_faults : ∀ args : List Expr, Faults (arguments args)
  | [] => by
    rw [arguments]
    exact .pure _
  | a :: rest => by
    rw [arguments]
    exact (expr_faults a).bind fun _ => (Faults.requireValue _ _).bind fun _ =>
      (arguments_faults rest).bind fun _ => .pure _

theorem elements_faults (elem : Ty) : ∀ elems : List Expr, Faults (elements elem elems)
  | [] => by
    rw [elements]
    exact .pure _
  | a :: rest => by
    rw [elements]
    refine (expr_faults a).bind fun _ => (Faults.requireValue _ _).bind fun _ => ?_
    dsimp only
    exact Faults.ite (elements_faults elem rest) (Faults.mismatch_bind _ _ _)

theorem assignTarget_faults : ∀ e : Expr, Faults (assignTarget e)
  | .ident id => by
    rw [assignTarget]
    exact identTarget_faults id
  | .paren e _ => by
    rw [assignTarget]
    exact assignTarget_faults e
  | .field obj name sp => by
    rw [assignTarget]
    refine (staticReceiver_faults obj).bind fun r => ?_
    split
    · exact fieldTarget_faults _ _ _
    · exact (expr_faults obj).bind fun _ => (valueReceiver_faults _ _).bind fun _ =>
        fieldTarget_faults _ _ _
  | .index obj idx sp => by
    rw [assignTarget]
    exact (expr_faults obj).bind fun _ => (Faults.requireValue _ _).bind fun _ =>
      (elementOf_faults _ _).bind fun _ => (expr_faults idx).bind fun _ =>
      (Faults.requireValue _ _).bind fun _ => (checkIndex_faults _ _).bind fun _ => .pure _
  | .lit .. | .binary .. | .unary .. | .assign .. | .call .. | .method .. | .cast .. | .newObj ..
  | .array .. => Faults.fail fun _ h => by cases h

end

/-! ### Statements -/

theorem declareLocal_faults (name : Ident) (declared : Option Ty) (init : Ty) (initSpan sp : Span) :
    Faults (declareLocal name declared init initSpan sp) := by
  unfold declareLocal
  lift_lets
  intro declare
  have hdeclare : ∀ t, Faults (declare t) := fun t => by
    simp only [declare]
    exact (Faults.withScope fun _ _ => Scope.declare_fault).bind fun _ => Faults.out _
  split
  · exact Faults.ite ((Faults.pure _).bind hdeclare) ((Faults.mismatch _ _).bind hdeclare)
  · exact Faults.ite ((Faults.mismatch _ _).bind hdeclare) ((Faults.pure _).bind hdeclare)

mutual

theorem stmt_faults : ∀ st : Stmt, Faults (stmt st)
  | .expr e sp => by
    rw [stmt_expr_eq]
    exact (Faults.out _).bind fun _ => (expr_faults e).bind fun _ => Faults.ite (.pure _) (Faults.out _)
  | .letDecl name ty init sp => by
    rw [stmt_letDecl_eq]
    refine (Faults.out _).bind fun _ => ?_
    lift_lets
    intro declare
    have hdeclare : ∀ d, Faults (declare d) := fun d => by
      simp only [declare]
      exact (expr_faults init).bind fun _ => (Faults.requireValue _ _).bind fun _ =>
        declareLocal_faults _ _ _ _ _
    split
    · exact (Faults.resolveKnown _).map.bind hdeclare
    · exact (Faults.pure _).bind hdeclare
  | .ret value sp => by
    rw [stmt_ret_eq]
    refine (Faults.out _).bind fun _ => Faults.read.bind fun c => ?_
    dsimp only
    split
    · refine (expr_faults _).bind fun _ => (Faults.requireValue _ _).bind fun _ => ?_
      exact Faults.ite (Faults.out _) (Faults.mismatch_bind _ _ _)
    · exact Faults.out _
    · exact Faults.mismatch _ _
    · exact Faults.mismatch _ _
  | .block b => by
    rw [stmt_block_eq]
    exact (Faults.out _).bind fun _ => block_faults b
  | .ifElse cond thenB none sp => by
    rw [stmt_ifElse_eq]
    exact (Faults.out _).bind fun _ => (expr_faults cond).bind fun _ => (Faults.requireValue _ _).bind fun _ =>
      (Faults.expectBool _ _ _).bind fun _ => Faults.newLabel.bind fun _ => (Faults.out _).bind fun _ =>
      (block_faults thenB).bind fun _ => Faults.out _
  | .ifElse cond thenB (some e) sp => by
    rw [stmt_ifElse_eq]
    refine (Faults.out _).bind fun _ => (expr_faults cond).bind fun _ => (Faults.requireValue _ _).bind fun _ =>
      (Faults.expectBool _ _ _).bind fun _ => Faults.newLabel.bind fun _ => (Faults.out _).bind fun _ =>
      (block_faults thenB).bind fun _ => ?_
    dsimp only
    refine Faults.ite ((Faults.pure _).bind fun stop => ?_)
      (Faults.newLabel.bind fun _ => (Faults.out _).bind fun _ => (Faults.pure _).bind fun stop => ?_)
    -- the else branch, after the `GOTO` over it if the then-block needs one
    all_goals
      refine (Faults.out _).bind fun _ => (stmt_faults e).bind fun _ => ?_
      split
      · exact Faults.out _
      · exact .pure _
  | .while cond body sp => by
    rw [stmt_while_eq]
    exact (Faults.out _).bind fun _ => Faults.newLabel.bind fun _ => Faults.newLabel.bind fun _ =>
      (Faults.out _).bind fun _ => (expr_faults cond).bind fun _ => (Faults.requireValue _ _).bind fun _ =>
      (Faults.expectBool _ _ _).bind fun _ => (Faults.out _).bind fun _ => (block_faults body).bind fun _ =>
      Faults.out _

theorem block_faults : ∀ b : Block, Faults (block b)
  | .mk stmts _ => by
    rw [block]
    exact (Faults.modify _).bind fun _ => (stmtList_faults stmts).bind fun _ => Faults.modify _

theorem stmtList_faults : ∀ stmts : List Stmt, Faults (stmtList stmts)
  | [] => by
    rw [stmtList]
    exact .pure _
  | st :: rest => by
    rw [stmtList]
    exact (stmt_faults st).bind fun _ => stmtList_faults rest

end

/-! ### Methods -/

theorem Faults.forIn_list {γ : Type} {f : γ → β → Gen (ForInStep β)} (hf : ∀ x b, Faults (f x b)) :
    ∀ (xs : List γ) (b : β), Faults (ForIn.forIn xs b f)
  | [], b => Faults.pure b
  | x :: xs, b => by
    rw [List.forIn_cons]
    refine (hf x b).bind fun r => ?_
    cases r with
    | done b' => exact Faults.pure b'
    | yield b' => exact forIn_list hf xs b'

theorem declareParams_faults : Faults declareParams := by
  unfold declareParams
  refine Faults.read.bind fun c => ?_
  dsimp only
  refine (Faults.forIn_list (fun x _ => ?_) _ _).bind fun _ => Faults.pure _
  obtain ⟨t, i⟩ := x
  exact (Faults.withScope fun _ _ => Scope.declare_fault).bind fun _ => Faults.pure _

/-- A method body fails only with a fault: of a statement, of a parameter, or
    a value method whose end is reachable. -/
theorem methodBody_faults (decl : FnDecl) : Faults (methodBody decl) := by
  unfold methodBody
  refine declareParams_faults.bind fun _ => (stmtList_faults _).bind fun _ => Faults.read.bind fun c => ?_
  refine Faults.ite (Faults.get.bind fun _ => Faults.ite (Faults.out _) (.pure _)) ?_
  exact Faults.ite (Faults.fail fun _ h => by cases h) (.pure _)

/-- A method body is a piece of code of its own. -/
theorem methodBody_confined (decl : FnDecl) : Confined (methodBody decl) := by
  unfold methodBody
  refine declareParams_confined.bind fun _ => (stmtList_confined _).bind fun _ => Confined.read.bind fun c => ?_
  refine Confined.ite (Confined.get.bind fun _ => Confined.ite (Confined.out fun _ => .emit _) (.pure _)) ?_
  exact Confined.ite (.fail _) (.pure _)

end Gen

/-- A body added to a fresh emitter as a piece of code of its own finishes:
    every jump in it goes to a label that it placed. -/
theorem Emitter.finish_of_confined {lineNumbers : Bool} {e : Emitter} (h : (Emitter.new lineNumbers).Confined e)
    (n : Nat) : e.finish n = .ok ⟨e.code, n⟩ := by
  unfold Emitter.finish
  split
  · -- a jump to an unplaced label: but every label it jumps to was placed
    rename_i op l hfind
    have hl := h.jumps op l (by simpa [Emitter.new] using List.mem_of_find?_eq_some hfind)
    have hp := List.find?_some hfind
    simp [h.placed l hl.1 hl.2] at hp
  · rfl

/-- Compiling a method body fails only with a fault of the program. -/
theorem compileMethod_fault {c : MethodContext} {decl : FnDecl} {e : CompilationError}
    (h : compileMethod c decl = .error e) : e.IsFault := by
  unfold compileMethod at h
  rcases Except.bind_eq_error.1 h with h | ⟨⟨⟨⟩, s⟩, hrun, hfin⟩
  · exact Gen.methodBody_faults decl c _ e h
  · dsimp only at hfin
    rw [Emitter.finish_of_confined (Gen.methodBody_confined decl c _ _ _ hrun)] at hfin
    cases hfin

end ClassCompiler
