import ClassCompiler.Proofs.Codegen.Confined
import ClassCompiler.Proofs.Primitive.Generation

/-!
# Every construct compiles to a piece of its own

`Gen.Confined g`: every successful run of the generator `g` adds a piece of
code of its own (`Emitter.Confined`). Generators built with `bind` from such
generators are such generators (`Confined.bind`), so each function of the
expression and statement compiler is shown to be one from its parts. The
calls that insert code at a mark taken before their arguments extend the
piece begun at that mark (`ConfinedAfter`).

The constructs that make labels lay out their code in four shapes, each a
piece of its own: a comparison, an `if` without `else`, an `if` with `else`
(with or without the `GOTO` over the else branch), and a `while` loop.
-/

namespace ClassCompiler

open Syntax

/-! ### The shapes of the constructs that make labels -/

namespace Emitter.Confined

variable {e e₁ e₂ e₃ : Emitter}

/-- `IFEQ L; then; L:` — a jump over the then-block to a label placed after
    it. -/
theorem ifThen (hT : Confined (e.newLabel.2.jump .ifeq e.bound.size) e₂) :
    Confined e (e₂.place e.bound.size) := by
  have hL : e.bound.size < e₂.bound.size := Nat.lt_of_lt_of_le (by simp) hT.bound_le
  refine ⟨((Extends.newLabel.jump (Nat.le_refl _) (by simp)).trans hT.toExtends).place (Nat.le_refl _), ?_⟩
  intro l hl hl'
  by_cases hlL : l = e.bound.size
  · subst hlL
    exact isBound_place_self hL
  · exact isBound_place (hT.placed l (by simp; omega) (by simpa using hl'))

/-- `IFEQ L; then; GOTO M; L: else; M:` — the then-block jumps over the else
    branch. -/
theorem ifThenElse (hT : Confined (e.newLabel.2.jump .ifeq e.bound.size) e₂)
    (hE : Confined ((e₂.newLabel.2.jump .goto e₂.bound.size).place e.bound.size) e₃) :
    Confined e (e₃.place e₂.bound.size) := by
  have hL : e.bound.size < e₂.bound.size := Nat.lt_of_lt_of_le (by simp) hT.bound_le
  have hM : e₂.bound.size < e₃.bound.size := Nat.lt_of_lt_of_le (by simp) hE.bound_le
  refine ⟨(((((Extends.newLabel.jump (Nat.le_refl _) (by simp)).trans hT.toExtends).trans .newLabel).jump
    (Nat.le_of_lt hL) (by simp)).place (Nat.le_refl _) |>.trans hE.toExtends).place (Nat.le_of_lt hL), ?_⟩
  intro l hl hl'
  rw [place_bound_size] at hl'
  -- `L`, the labels of the then-block, `M`, the labels of the else branch
  rcases (show l = e.bound.size ∨ (e.bound.size < l ∧ l < e₂.bound.size) ∨ l = e₂.bound.size ∨
      e₂.bound.size < l by omega) with rfl | ⟨hl₁, hl₂⟩ | rfl | hl₁
  · exact isBound_place (hE.isBound (isBound_place_self (by simp <;> omega)))
  · exact isBound_place (hE.isBound (isBound_place (isBound_newLabel (hT.placed l (by simp <;> omega) hl₂))))
  · exact isBound_place_self hM
  · exact isBound_place (hE.placed l (by simp <;> omega) hl')

/-- `H: cond; IFEQ X; body; GOTO H; X:` — a loop tested at its head. -/
theorem loop (hC : Confined ((e.newLabel.2.newLabel.2).place e.bound.size) e₁)
    (hB : Confined (e₁.jump .ifeq (e.bound.size + 1)) e₂) :
    Confined e ((e₂.jump .goto e.bound.size).place (e.bound.size + 1)) := by
  have hX : e.bound.size + 1 < e₁.bound.size := Nat.lt_of_lt_of_le (by simp) hC.bound_le
  refine ⟨((((((Extends.newLabel.trans .newLabel).place (Nat.le_refl _)).trans hC.toExtends).jump
    (by omega) hX).trans hB.toExtends).jump (Nat.le_refl _)
    (Nat.lt_of_lt_of_le (show e.bound.size < (e₁.jump .ifeq (e.bound.size + 1)).bound.size by simp <;> omega)
      hB.bound_le)).place (by omega), ?_⟩
  intro l hl hl'
  rw [place_bound_size] at hl'
  -- `H`, `X`, the labels of the condition, the labels of the body
  rcases (show l = e.bound.size ∨ l = e.bound.size + 1 ∨ (e.bound.size + 1 < l ∧ l < e₁.bound.size) ∨
      e₁.bound.size ≤ l by omega) with rfl | rfl | ⟨hl₁, hl₂⟩ | hl₁
  · exact isBound_place (hB.isBound (hC.isBound (isBound_place_self (by simp <;> omega))))
  · exact isBound_place_self (Nat.lt_of_lt_of_le hX hB.bound_le)
  · exact isBound_place (hB.isBound (hC.placed l (by simp <;> omega) hl₂))
  · exact isBound_place (hB.placed l hl₁ hl')

end Emitter.Confined

namespace Gen

variable {α β : Type} {c : MethodContext} {s s' : GenState}

/-- Every successful run of `g` adds a piece of code of its own. -/
def Confined (g : Gen α) : Prop :=
  ∀ c s a s', g c s = .ok (a, s') → s.emitter.Confined s'.emitter

/-- Every successful run of `g` from the end of a piece begun at or before
    the mark `m` extends that piece. -/
def ConfinedAfter (m : Nat) (g : Gen α) : Prop :=
  ∀ (e₀ : Emitter) c s a s', e₀.code.size ≤ m → e₀.Confined s.emitter → g c s = .ok (a, s') →
    e₀.Confined s'.emitter

namespace Confined

theorem bind {x : Gen α} {f : α → Gen β} (hx : Confined x) (hf : ∀ a, Confined (f a)) :
    Confined (x >>= f) := by
  intro c s b s'' h
  obtain ⟨a, s', h₁, h₂⟩ := bind_ok.1 h
  exact (hx c s a s' h₁).trans (hf a c s' b s'' h₂)

/-- A generator that leaves the emitter alone. -/
theorem of_keeps {g : Gen α} (h : ∀ c s a s', g c s = .ok (a, s') → s'.emitter = s.emitter) :
    Confined g := by
  intro c s a s' hg
  rw [h c s a s' hg]
  exact .refl _

theorem pure (a : α) : Confined (pure a : Gen α) :=
  of_keeps fun _ _ _ _ h => by rw [(pure_ok.1 h).2]

theorem read : Confined (read : Gen MethodContext) :=
  of_keeps fun _ _ _ _ h => by rw [(read_ok.1 h).2]

theorem get : Confined (get : Gen GenState) :=
  of_keeps fun _ _ _ _ h => by rw [(get_ok.1 h).2]

theorem fail (err : CompilationError) : Confined (fail err : Gen α) :=
  fun _ _ _ _ h => absurd h fail_ne

theorem mismatch (m : Mismatch) (sp : Span) : Confined (mismatch m sp : Gen α) :=
  fun _ _ _ _ h => absurd h mismatch_ne

/-- A generator that fails first never succeeds. -/
theorem fail_bind (err : CompilationError) (f : α → Gen β) : Confined (Gen.fail err >>= f) :=
  fun _ _ _ _ h => by
    obtain ⟨_, _, h₁, _⟩ := bind_ok.1 h
    exact absurd h₁ fail_ne

theorem mismatch_bind (m : Mismatch) (sp : Span) (f : α → Gen β) :
    Confined (Gen.mismatch m sp >>= f) :=
  fun _ _ _ _ h => by
    obtain ⟨_, _, h₁, _⟩ := bind_ok.1 h
    exact absurd h₁ mismatch_ne

theorem out {f : Emitter → Emitter} (hf : ∀ e, Emitter.Confined e (f e)) : Confined (out f) := by
  intro c s _ s' h
  rw [out_ok.1 h]
  exact hf s.emitter

theorem ite {p : Prop} [Decidable p] {x y : Gen α} (hx : Confined x) (hy : Confined y) :
    Confined (if p then x else y) := by
  split
  · exact hx
  · exact hy

theorem map {x : Gen α} {f : α → β} (hx : Confined x) : Confined (f <$> x) := by
  intro c s b s' h
  obtain ⟨a, hx', _⟩ := map_ok.1 h
  exact hx c s a s' hx'

theorem mark : Confined mark :=
  of_keeps fun _ _ _ _ h => by rw [(mark_ok.1 h).2]

theorem withScope {f : Scope → Except CompilationError (α × Scope)} : Confined (withScope f) :=
  of_keeps fun _ _ _ _ h => by
    obtain ⟨_, _, rfl⟩ := withScope_ok.1 h
    rfl

theorem resolveKnown (t : TypeExpr) : Confined (resolveKnown t) :=
  of_keeps fun _ _ _ _ h => by rw [(resolveKnown_ok.1 h).2]

theorem requireValue (sp : Span) (t : Ty) : Confined (requireValue sp t) :=
  of_keeps fun _ _ _ _ h => by rw [(requireValue_ok.1 h).2.1]

theorem expectBool (site : BoolSite) (t : Ty) (sp : Span) : Confined (expectBool site t sp) :=
  of_keeps fun _ _ _ _ h => by rw [(expectBool_ok.1 h).2]

theorem after {m : Nat} {g : Gen α} (h : Confined g) : ConfinedAfter m g :=
  fun _ c s a s' _ h₀ hg => h₀.trans (h c s a s' hg)

/-- A generator run after taking a mark extends the piece begun at the mark. -/
theorem mark_bind {f : Nat → Gen α} (h : ∀ m, ConfinedAfter m (f m)) : Confined (Gen.mark >>= f) := by
  intro c s a s' hrun
  obtain ⟨m, s₁, hm, hf⟩ := bind_ok.1 hrun
  obtain ⟨rfl, hs⟩ := mark_ok.1 hm
  rw [hs] at hf
  exact h _ s.emitter c s a s' (Nat.le_refl _) (.refl _) hf

end Confined

namespace ConfinedAfter

variable {m : Nat}

theorem bind {x : Gen α} {f : α → Gen β} (hx : ConfinedAfter m x) (hf : ∀ a, ConfinedAfter m (f a)) :
    ConfinedAfter m (x >>= f) := by
  intro e₀ c s b s'' hm h₀ h
  obtain ⟨a, s', h₁, h₂⟩ := bind_ok.1 h
  exact hf a e₀ c s' b s'' hm (hx e₀ c s a s' hm h₀ h₁) h₂

theorem ite {p : Prop} [Decidable p] {x y : Gen α} (hx : ConfinedAfter m x) (hy : ConfinedAfter m y) :
    ConfinedAfter m (if p then x else y) := by
  split
  · exact hx
  · exact hy

/-- A change of the emitter that keeps every piece begun at or before `m`. -/
theorem out {f : Emitter → Emitter}
    (hf : ∀ e₀ e : Emitter, e₀.code.size ≤ m → e₀.Confined e → e₀.Confined (f e)) : ConfinedAfter m (out f) := by
  intro e₀ c s _ s' hm h₀ h
  rw [out_ok.1 h]
  exact hf e₀ s.emitter hm h₀

theorem insert {is : List Instruction} (his : ∀ i ∈ is, i.isPlain = true) :
    ConfinedAfter m (Gen.out fun e => e.insert m is) :=
  out fun _ _ hm h₀ => h₀.insert hm his

end ConfinedAfter

/-! ### The parts of expressions -/

section Parts

theorem literal_confined : ∀ l : Literal, Confined (literal l)
  | .int _ => (Confined.out fun _ => .emitInt _).bind fun _ => .pure _
  | .long _ => (Confined.out fun _ => .emitLong _).bind fun _ => .pure _
  | .float _ => (Confined.out fun _ => .emitFloat _).bind fun _ => .pure _
  | .double _ => (Confined.out fun _ => .emitDouble _).bind fun _ => .pure _
  | .bool _ => (Confined.out fun _ => .emitBool _).bind fun _ => .pure _
  | .string _ => (Confined.out fun _ => .emitString _).bind fun _ => .pure _
  | .null => (Confined.out fun _ => .emit _).bind fun _ => .pure _

theorem pushThis_confined (sp : Span) : Confined (pushThis sp) := by
  unfold pushThis
  refine Confined.read.bind fun c => ?_
  dsimp only
  refine Confined.ite (Confined.fail_bind _ _) ?_
  refine (Confined.out fun _ => .load _ _).bind fun _ => ?_
  exact Confined.ite ((Confined.out fun _ => .field _ _ _ _).bind fun _ => .pure _) (.pure _)

theorem identifier_confined (id : Ident) : Confined (identifier id) := by
  unfold identifier
  refine Confined.read.bind fun c => Confined.get.bind fun st => ?_
  dsimp only
  split
  · exact (Confined.out fun _ => .load _ _).bind fun _ => .pure _
  · refine Confined.ite (pushThis_confined _) ?_
    split
    · refine Confined.ite ((Confined.out fun _ => .field _ _ _ _).bind fun _ => .pure _) ?_
      exact (pushThis_confined _).bind fun _ => (Confined.out fun _ => .field _ _ _ _).bind fun _ => .pure _
    · split
      · exact .pure _
      · exact .fail _

theorem isValueName_confined (n : String) : Confined (isValueName n) :=
  Confined.read.bind fun _ => Confined.get.bind fun _ => .pure _

theorem typePath_confined : ∀ e : Expr, Confined (typePath e)
  | .ident id => by
    rw [typePath]
    exact (isValueName_confined _).bind fun _ => .pure _
  | .field obj _ _ => by
    rw [typePath]
    exact (typePath_confined obj).bind fun _ => .pure _
  | .lit .. | .binary .. | .unary .. | .assign .. | .call .. | .method .. | .index .. | .cast ..
  | .newObj .. | .array .. | .paren .. => .pure _

theorem staticReceiver_confined (obj : Expr) : Confined (staticReceiver? obj) := by
  unfold staticReceiver?
  refine (typePath_confined obj).bind fun p => ?_
  split
  · exact Confined.read.bind fun _ => .pure _
  · exact .pure _

theorem valueReceiver_confined (sp : Span) (t : Ty) : Confined (valueReceiver sp t) := by
  unfold valueReceiver
  split
  · split
    · exact .pure _
    · exact .mismatch _ _
  · exact .mismatch _ _
  · exact .pure _

theorem fieldRead_confined (r : Receiver) (n : String) (sp : Span) : Confined (fieldRead r n sp) := by
  unfold fieldRead
  refine Confined.read.bind fun c => ?_
  dsimp only
  split
  · split
    · exact .fail _
    · refine Confined.ite ((Confined.out fun _ => .field _ _ _ _).bind fun _ => .pure _) ?_
      exact Confined.mismatch_bind _ _ _
  · exact Confined.ite ((Confined.out fun _ => .emit _).bind fun _ => .pure _) (.fail _)
  · split
    · exact .fail _
    · refine Confined.ite ?_ ?_
      · exact (Confined.out fun _ => (Emitter.Confined.emit _).trans (.field _ _ _ _)).bind
          fun _ => .pure _
      · exact (Confined.out fun _ => .field _ _ _ _).bind fun _ => .pure _
  · exact .fail _

theorem emitInvoke_confined (d : TypeDecl) (m : MethodSig) : Confined (emitInvoke d m) :=
  Confined.out fun _ => .push rfl

theorem unary_confined (op : UnOp) (t : Ty) (sp : Span) : Confined (unary op t sp) := by
  unfold unary
  split
  · split
    · exact (Confined.out fun _ => .emit _).bind fun _ => .pure _
    · exact .mismatch _ _
  · exact (Confined.expectBool _ _ _).bind fun _ =>
      (Confined.out fun _ => (Emitter.Confined.emit _).trans (.emit _)).bind fun _ => .pure _

/-- The code of a comparison makes two labels and places both. -/
theorem compareCode_confined (e : Emitter) (pre : List Opcode) (jump : Opcode) :
    e.Confined (compareCode e pre jump) := by
  refine (Emitter.Confined.foldl Emitter.emit (fun _ op => .emit op) pre e).trans ?_
  unfold compareCode
  dsimp only
  generalize pre.foldl Emitter.emit e = e₁
  -- the label `L` taken on a true comparison and `M` after both branches
  have hL : e₁.bound.size < e₁.newLabel.2.newLabel.2.bound.size := by
    simp only [Emitter.newLabel_bound, Array.size_push]
    omega
  have hM : e₁.newLabel.2.bound.size < e₁.newLabel.2.newLabel.2.bound.size := by simp
  refine ⟨((((((Emitter.Extends.newLabel.trans .newLabel).jump (Nat.le_refl _) hL).trans
    (.push rfl)).jump (by simp) hM).place (Nat.le_refl _)).trans (.push rfl)).place (by simp), ?_⟩
  intro l hl hl'
  by_cases hlL : l = e₁.bound.size
  · subst hlL
    exact Emitter.isBound_place (Emitter.isBound_place_self (Nat.lt_of_lt_of_le hL (by simp)))
  · have hlM : l = e₁.newLabel.2.bound.size := by
      simp only [Emitter.place_bound_size, Emitter.emit_bound, Emitter.jump_bound,
        Emitter.newLabel_bound, Array.size_push] at hl' ⊢
      omega
    subst hlM
    exact Emitter.isBound_place_self (by simp)

theorem binary_confined (op : BinOp) (l r : Ty) (sp : Span) : Confined (binary op l r sp) := by
  intro c s t s' h
  rcases binary_ok h with ⟨_, _, _, _, rfl⟩ | ⟨_, pre, jump, _, _, _, _, rfl⟩ | ⟨_, code, _, _, _, _, rfl⟩
  · exact .emit _
  · exact compareCode_confined _ pre jump
  · exact .emit _

theorem bareCall_confined (n : String) (args : List Ty) (m : Nat) (sp : Span) :
    ConfinedAfter m (bareCall n args m sp) := by
  unfold bareCall
  refine Confined.read.after.bind fun c => ?_
  lift_lets
  intro viaHolder found
  -- with no method of the class, a static method of the holder
  have hfound : ∀ t, ConfinedAfter m (found t) := by
    intro t
    simp only [found]
    split
    · exact (Confined.pure _).after
    · generalize viaHolder = v
      split
      · exact ((emitInvoke_confined _ _).bind fun _ => .pure _).after
      · exact (Confined.fail _).after
  have hslot : ∀ i ∈ [Instruction.slot .aload 0], i.isPlain = true := by simp [Instruction.isPlain]
  split
  · split
    · exact (ConfinedAfter.insert hslot).bind fun _ => (emitInvoke_confined _ _).after.bind fun _ =>
        (Confined.pure _).after.bind hfound
    · split
      · refine ConfinedAfter.ite ?_ ?_
        · exact (emitInvoke_confined _ _).after.bind fun _ => (Confined.pure _).after.bind hfound
        · exact (ConfinedAfter.insert (by simp [Instruction.isPlain])).bind fun _ =>
            (emitInvoke_confined _ _).after.bind fun _ => (Confined.pure _).after.bind hfound
      · exact (Confined.pure _).after.bind hfound
  · split
    · refine ConfinedAfter.ite ?_ ?_
      · exact (emitInvoke_confined _ _).after.bind fun _ => (Confined.pure _).after.bind hfound
      · exact (ConfinedAfter.insert hslot).bind fun _ => (emitInvoke_confined _ _).after.bind fun _ =>
          (Confined.pure _).after.bind hfound
    · exact (Confined.pure _).after.bind hfound

theorem staticCall_confined (o n : String) (args : List Ty) (sp : Span) :
    Confined (staticCall o n args sp) := by
  unfold staticCall
  refine Confined.read.bind fun _ => ?_
  dsimp only
  split
  · exact .fail _
  · exact Confined.ite ((emitInvoke_confined _ _).bind fun _ => .pure _) (Confined.mismatch_bind _ _ _)

theorem adapterWrap_isPlain (a : String) (t : Ty) : ∀ i ∈ adapterWrap a t, i.isPlain = true := by
  simp [adapterWrap, Instruction.isPlain, Emitter.invokeRef]

theorem methodCall_confined (t : Ty) (n : String) (args : List Ty) (m : Nat) (sp : Span) :
    ConfinedAfter m (methodCall t n args m sp) := by
  unfold methodCall
  refine Confined.read.after.bind fun c => ?_
  lift_lets
  intro noMethod withOwner
  -- the method of the owner, or of a trait it implements, called through the adapter
  have howner : ∀ o, ConfinedAfter m (withOwner o) := by
    intro o
    simp only [withOwner]
    split
    · refine ConfinedAfter.ite ?_ ?_
      · exact (ConfinedAfter.insert (by simp [Instruction.isPlain])).bind fun _ =>
          ((emitInvoke_confined _ _).bind fun _ => .pure _).after
      · exact ((emitInvoke_confined _ _).bind fun _ => .pure _).after
    · split
      · refine (ConfinedAfter.out fun _ _ hm h₀ => ?_).bind fun _ => (Confined.pure _).after
        exact (h₀.insert hm (adapterWrap_isPlain _ _)).push_after rfl
      · exact (Confined.fail _).after
  split
  · exact (Confined.pure _).after.bind howner
  · exact (Confined.pure _).after.bind howner
  · exact (Confined.fail _).after.bind howner

theorem reflectiveCast_confined (tr : String) : Confined (reflectiveCast tr) := by
  unfold reflectiveCast
  refine Confined.read.bind fun _ => Confined.withScope.bind fun _ => Confined.out fun e => ?_
  repeat refine Emitter.Confined.push_after ?_ rfl
  exact .refl e

theorem traitCast_confined (t : Ty) (tr : String) : Confined (traitCast t tr) := by
  unfold traitCast
  refine Confined.read.bind fun _ => ?_
  split
  · exact reflectiveCast_confined _
  · split
    · exact Confined.out fun e => .foldl_push e (adapterWrap_isPlain _ _)
    · exact reflectiveCast_confined _

theorem cast_confined (target t : Ty) (sp : Span) : Confined (cast target t sp) := by
  unfold cast
  refine Confined.ite (.pure _) ?_
  lift_lets
  intro invalid done checked
  -- a reference cast: `CHECKCAST`, or a trait cast
  have hchecked : ∀ u, Confined (checked u) := by
    intro u
    simp only [checked, done]
    refine Confined.read.bind fun c => ?_
    split
    · refine Confined.ite ?_ ?_
      · exact (traitCast_confined _ _).bind fun _ => .pure _
      · exact (Confined.out fun _ => .classRef _ _).bind fun _ => .pure _
    · split
      · exact (Confined.out fun _ => .classRef _ _).bind fun _ => .pure _
      · exact Confined.fail_bind _ _
  refine Confined.ite ?_ ?_
  · exact (Confined.out fun e => .foldl Emitter.emit (fun _ op => .emit op) _ e).bind fun _ => .pure _
  · exact Confined.ite (hchecked ()) ((Confined.fail _).bind hchecked)

theorem instantiate_confined (t : Ty) (sp : Span) : Confined (instantiate t sp) := by
  unfold instantiate
  refine Confined.read.bind fun _ => ?_
  dsimp only
  split
  · exact .fail _
  · exact (Confined.out fun _ => (Emitter.Confined.classRef _ _).trans (.emit _)).bind fun _ => .pure _

theorem construct_confined (d : TypeDecl) (t : Ty) (args : List Ty) (sp : Span) :
    Confined (construct d t args sp) := by
  unfold construct
  split
  · exact .fail _
  · dsimp only
    refine Confined.ite ((Confined.out fun _ => .emit _).bind fun _ => ?_) ?_
    all_goals exact (Confined.out fun _ => .invoke _ _ _ _).bind fun _ => .pure _

theorem fillArray_confined (elem : Ty) (count : Nat) (sp : Span) : Confined (fillArray elem count sp) := by
  unfold fillArray
  dsimp only
  refine Confined.ite ((Confined.fail _).bind fun _ => ?_) ?_
  all_goals
    refine (Confined.out fun e => ((Emitter.Confined.emitInt _).trans (.newArray _)).trans
      (.foldl _ (fun e i => ?_) _ _)).bind fun _ => .pure _
    -- each element is stored, from the last, into the new array below it
    refine Emitter.Confined.trans ?_ (.emit _)
    split
    · exact (((Emitter.Confined.emit _).trans (.emitInt _)).trans (.emit _)).trans (.emit _)
    · exact (((Emitter.Confined.emit _).trans (.emit _)).trans (.emitInt _)).trans (.emit _)

theorem elementOf_confined (t : Ty) (sp : Span) : Confined (elementOf t sp) := by
  unfold elementOf
  split
  · exact .pure _
  · exact .mismatch _ _

theorem checkIndex_confined (t : Ty) (sp : Span) : Confined (checkIndex t sp) :=
  Confined.ite (.pure _) (.mismatch _ _)

theorem identTarget_confined (id : Ident) : Confined (identTarget id) := by
  unfold identTarget
  refine Confined.read.bind fun c => Confined.get.bind fun st => ?_
  dsimp only
  split
  · exact .pure _
  · refine Confined.ite (Confined.fail_bind _ _) ?_
    split
    · exact Confined.ite (.pure _) ((pushThis_confined _).bind fun _ => .pure _)
    · exact Confined.ite (Confined.fail_bind _ _) (.fail _)

theorem fieldTarget_confined (r : Receiver) (n : String) (sp : Span) : Confined (fieldTarget r n sp) := by
  unfold fieldTarget
  refine Confined.read.bind fun c => ?_
  dsimp only
  split
  · split
    · exact .fail _
    · exact Confined.ite (.pure _) (Confined.mismatch_bind _ _ _)
  · split
    · exact .fail _
    · exact Confined.ite ((Confined.out fun _ => .emit _).bind fun _ => .pure _) (.pure _)
  · exact Confined.ite (.fail _) (.fail _)

theorem storeTo_confined : ∀ lv : LValue, Confined (storeTo lv)
  | .local .. => Confined.out fun _ => .store _ _
  | .field .. => Confined.out fun _ => .field _ _ _ _
  | .element _ => Confined.out fun _ => .emit _

end Parts

/-! ### Expressions -/

mutual

theorem expr_confined : ∀ e : Expr, Confined (expr e)
  | .lit l _ => by
    rw [expr]
    exact literal_confined l
  | .ident id => by
    rw [expr]
    exact identifier_confined id
  | .paren e _ => by
    rw [expr]
    exact expr_confined e
  | .binary op l r sp => by
    rw [expr]
    exact (expr_confined l).bind fun _ => (Confined.requireValue _ _).bind fun _ =>
      (expr_confined r).bind fun _ => (Confined.requireValue _ _).bind fun _ => binary_confined _ _ _ _
  | .unary op e sp => by
    rw [expr]
    exact (expr_confined e).bind fun _ => (Confined.requireValue _ _).bind fun _ => unary_confined _ _ _
  | .assign target value sp => by
    rw [expr]
    refine (assignTarget_confined target).bind fun lv => (expr_confined value).bind fun _ =>
      (Confined.requireValue _ _).bind fun _ => ?_
    dsimp only
    exact Confined.ite ((storeTo_confined lv).bind fun _ => .pure _) (Confined.mismatch_bind _ _ _)
  | .call callee args sp => by
    rw [expr]
    exact Confined.mark_bind fun _ => (arguments_confined args).after.bind fun _ =>
      bareCall_confined _ _ _ _
  | .field obj name sp => by
    rw [expr]
    refine (staticReceiver_confined obj).bind fun r => ?_
    split
    · exact fieldRead_confined _ _ _
    · exact (expr_confined obj).bind fun _ => (valueReceiver_confined _ _).bind fun _ =>
        fieldRead_confined _ _ _
  | .method obj name args sp => by
    rw [expr]
    refine (staticReceiver_confined obj).bind fun r => ?_
    split
    · exact (arguments_confined args).bind fun _ => staticCall_confined _ _ _ _
    · refine (expr_confined obj).bind fun _ => (valueReceiver_confined _ _).bind fun r => ?_
      split
      · exact (arguments_confined args).bind fun _ => staticCall_confined _ _ _ _
      · exact Confined.mark_bind fun _ => (arguments_confined args).after.bind fun _ =>
          methodCall_confined _ _ _ _ _
  | .index obj idx sp => by
    rw [expr]
    exact (expr_confined obj).bind fun _ => (Confined.requireValue _ _).bind fun _ =>
      (elementOf_confined _ _).bind fun _ => (expr_confined idx).bind fun _ =>
      (Confined.requireValue _ _).bind fun _ => (checkIndex_confined _ _).bind fun _ =>
      (Confined.out fun _ => .emit _).bind fun _ => .pure _
  | .cast target e sp => by
    rw [expr]
    exact (Confined.resolveKnown _).bind fun _ => (expr_confined e).bind fun _ =>
      (Confined.requireValue _ _).bind fun _ => cast_confined _ _ _
  | .newObj ty args sp => by
    rw [expr]
    exact (Confined.resolveKnown _).bind fun _ => (instantiate_confined _ _).bind fun _ =>
      (arguments_confined args).bind fun _ => construct_confined _ _ _ _
  | .array elemTy elems sp => by
    rw [expr]
    refine (Confined.resolveKnown _).bind fun _ => ?_
    dsimp only
    refine Confined.ite (Confined.mismatch_bind _ _ _) ?_
    exact (elements_confined _ elems).bind fun _ => fillArray_confined _ _ _

theorem arguments_confined : ∀ args : List Expr, Confined (arguments args)
  | [] => by
    rw [arguments]
    exact .pure _
  | a :: rest => by
    rw [arguments]
    exact (expr_confined a).bind fun _ => (Confined.requireValue _ _).bind fun _ =>
      (arguments_confined rest).bind fun _ => .pure _

theorem elements_confined (elem : Ty) : ∀ elems : List Expr, Confined (elements elem elems)
  | [] => by
    rw [elements]
    exact .pure _
  | a :: rest => by
    rw [elements]
    refine (expr_confined a).bind fun _ => (Confined.requireValue _ _).bind fun _ => ?_
    dsimp only
    exact Confined.ite (elements_confined elem rest) (Confined.mismatch_bind _ _ _)

theorem assignTarget_confined : ∀ e : Expr, Confined (assignTarget e)
  | .ident id => by
    rw [assignTarget]
    exact identTarget_confined id
  | .paren e _ => by
    rw [assignTarget]
    exact assignTarget_confined e
  | .field obj name sp => by
    rw [assignTarget]
    refine (staticReceiver_confined obj).bind fun r => ?_
    split
    · exact fieldTarget_confined _ _ _
    · exact (expr_confined obj).bind fun _ => (valueReceiver_confined _ _).bind fun _ =>
        fieldTarget_confined _ _ _
  | .index obj idx sp => by
    rw [assignTarget]
    exact (expr_confined obj).bind fun _ => (Confined.requireValue _ _).bind fun _ =>
      (elementOf_confined _ _).bind fun _ => (expr_confined idx).bind fun _ =>
      (Confined.requireValue _ _).bind fun _ => (checkIndex_confined _ _).bind fun _ => .pure _
  | .lit .. | .binary .. | .unary .. | .assign .. | .call .. | .method .. | .cast .. | .newObj ..
  | .array .. => .fail _

end

/-! ### Statements -/

theorem declareLocal_confined (name : Ident) (declared : Option Ty) (init : Ty) (initSpan sp : Span) :
    Confined (declareLocal name declared init initSpan sp) := by
  unfold declareLocal
  lift_lets
  intro declare
  have hdeclare : ∀ t, Confined (declare t) := fun t => by
    simp only [declare]
    exact Confined.withScope.bind fun _ => Confined.out fun _ => .store _ _
  split
  · exact Confined.ite ((Confined.pure _).bind hdeclare) ((Confined.mismatch _ _).bind hdeclare)
  · exact Confined.ite ((Confined.mismatch _ _).bind hdeclare) ((Confined.pure _).bind hdeclare)

mutual

theorem stmt_confined : ∀ st : Stmt, Confined (stmt st)
  | .expr e sp => by
    rw [stmt_expr_eq]
    exact (Confined.out fun _ => .setLine _).bind fun _ => (expr_confined e).bind fun _ =>
      Confined.ite (.pure _) (Confined.out fun _ => .pop _)
  | .letDecl name ty init sp => by
    rw [stmt_letDecl_eq]
    refine (Confined.out fun _ => .setLine _).bind fun _ => ?_
    lift_lets
    intro declare
    have hdeclare : ∀ d, Confined (declare d) := fun d => by
      simp only [declare]
      exact (expr_confined init).bind fun _ => (Confined.requireValue _ _).bind fun _ =>
        declareLocal_confined _ _ _ _ _
    split
    · exact (Confined.resolveKnown _).map.bind hdeclare
    · exact (Confined.pure _).bind hdeclare
  | .ret value sp => by
    intro c s u s' h
    rcases stmt_ret_ok h with ⟨-, -, rfl⟩ | ⟨e, v, s₁, rfl, -, he, -, -, -, rfl⟩
    · exact (Emitter.Confined.setLine _).trans (.emit _)
    · exact ((Emitter.Confined.setLine _).trans (expr_confined e c _ _ _ he)).trans (.emitReturn _)
  | .block b => by
    intro c s u s' h
    exact (Emitter.Confined.setLine _).trans (block_confined b c _ _ _ (stmt_block_ok.1 h))
  | .ifElse cond thenB none sp => by
    intro c s u s' h
    obtain ⟨s₁, s₂, hc, hthen, hrest⟩ := stmt_if_ok h
    have hcond := (Emitter.Confined.setLine _).trans (expr_confined cond c _ _ _ hc)
    have hT := block_confined thenB c _ _ _ hthen
    rcases hrest with ⟨-, rfl⟩ | ⟨_, hne, _⟩ | ⟨_, _, hne, _⟩
    · exact hcond.trans (Emitter.Confined.ifThen hT)
    · cases hne
    · cases hne
  | .ifElse cond thenB (some e) sp => by
    intro c s u s' h
    obtain ⟨s₁, s₂, hc, hthen, hrest⟩ := stmt_if_ok h
    have hcond := (Emitter.Confined.setLine _).trans (expr_confined cond c _ _ _ hc)
    have hT := block_confined thenB c _ _ _ hthen
    rcases hrest with ⟨hne, _⟩ | ⟨_, he, _, hrun⟩ | ⟨_, s₃, he, _, hrun, rfl⟩
    · cases hne
    · cases he
      exact hcond.trans ((Emitter.Confined.ifThen hT).trans (stmt_confined e c _ _ _ hrun))
    · cases he
      exact hcond.trans (Emitter.Confined.ifThenElse hT (stmt_confined e c _ _ _ hrun))
  | .while cond body sp => by
    intro c s u s' h
    obtain ⟨s₁, s₂, hc, hbody, rfl⟩ := stmt_while_ok h
    exact (Emitter.Confined.setLine _).trans
      (Emitter.Confined.loop (expr_confined cond c _ _ _ hc) (block_confined body c _ _ _ hbody))

theorem block_confined : ∀ b : Block, Confined (block b)
  | .mk stmts _ => by
    intro c s u s' h
    obtain ⟨s₁, h₁, rfl⟩ := block_ok.1 h
    -- entering and leaving the block's scope leaves the emitter alone
    exact (stmtList_confined stmts c _ _ _ h₁ :)

theorem stmtList_confined : ∀ stmts : List Stmt, Confined (stmtList stmts)
  | [] => by
    rw [stmtList]
    exact .pure _
  | st :: rest => by
    rw [stmtList]
    exact (stmt_confined st).bind fun _ => stmtList_confined rest

end

end Gen

end ClassCompiler
