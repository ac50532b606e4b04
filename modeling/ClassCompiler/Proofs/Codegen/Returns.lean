import ClassCompiler.Proofs.Codegen.Pieces
import ClassCompiler.Proofs.Build.Bodies

/-!
# No method runs off the end of its code

A statement that always returns (`Stmt.alwaysReturns`) compiles to code whose
end control cannot reach from its start (`stmt_sealed`): a `return` ends in
an instruction that stops, a block holds a statement that always returns, and
an `if` with an `else` whose branches both always return jumps over its
then-block, which never reaches the else branch, so the `GOTO` over the else
branch that the compiler leaves out there is never needed.

The pieces are read in any body `C` that the code extends and that holds
each label at most once (`Emitter.Starts`): every finished body is one.
-/

namespace ClassCompiler

open Syntax Flow Relation

namespace Emitter

variable {e e' : Emitter} {C : List Instruction}

/-- The code of `e` begins the body `C`, in which each label stands at most
    once. -/
structure Starts (e : Emitter) (C : List Instruction) : Prop where
  prefix_ : e.code.toList <+: C
  unique : ∀ l, C.count (.label l) ≤ 1

theorem Starts.earlier (h : Starts e' C) (hp : e.code.toList <+: e'.code.toList) : Starts e C :=
  ⟨hp.trans h.prefix_, h.unique⟩

theorem Starts.of_extends (h : Starts e' C) (hx : Extends e e') : Starts e C :=
  h.earlier hx.prefix_

/-- The entry added last stands at the old end of the code. -/
theorem Starts.getElem?_of_code {i : Instruction} (h : Starts e' C) (hc : e'.code = e.code.push i) :
    C[e.code.size]? = some i := by
  obtain ⟨t, ht⟩ := h.prefix_
  rw [← ht, hc]
  simp

/-- An entry pushed last that neither falls through nor jumps seals itself. -/
theorem Starts.sealed_push {i : Instruction} (h : Starts (e.push i) C) (hi : i.fallsThrough = false)
    (hj : ∀ op l, i ≠ .jump op l) : Sealed C e.code.size (e.push i).code.size := by
  rw [push_code, Array.size_push]
  exact sealed_stop (h.getElem?_of_code rfl) hi hj

theorem Confined.closed_of_starts (h : Confined e e') (he : e.LabelsOk) (hC : Starts e' C) :
    Closed C e.code.size e'.code.size :=
  h.closed he hC.prefix_ hC.unique

/-- A finished body holds each label at most once. -/
theorem LabelsOk.starts (h : e.LabelsOk) : Starts e e.code.toList := by
  refine ⟨List.prefix_refl _, fun l => ?_⟩
  rw [h l]
  split <;> omega

theorem labelsOk_new (lineNumbers : Bool) : (Emitter.new lineNumbers).LabelsOk := fun l => by
  simp [Emitter.new, isBound]

end Emitter

theorem Syntax.Block.alwaysReturns_eq (b : Block) : b.alwaysReturns = Stmt.anyReturns b.stmts := by
  cases b
  rfl

namespace Gen

variable {c : MethodContext} {C : List Instruction}

theorem size_setLine_le (e : Emitter) (n : Nat) : e.code.size ≤ (e.setLine n).code.size :=
  (Emitter.Confined.setLine n).size_le

mutual

/-- The code of a statement that always returns is sealed: from its start,
    control never comes to its end. -/
theorem stmt_sealed : ∀ (st : Stmt) {s s' : GenState}, stmt st c s = .ok ((), s') →
    s.emitter.LabelsOk → s'.emitter.Starts C → st.alwaysReturns = true →
    Sealed C s.emitter.code.size s'.emitter.code.size
  | .ret value sp, s, s', h, hs, hC, _ => by
    have hline := (Emitter.Confined.setLine (e := s.emitter) sp.line).closed_of_starts (C := C) hs
    have hls : (s.emitter.setLine sp.line).LabelsOk := (Emitter.Confined.setLine sp.line).labels hs
    rcases stmt_ret_ok h with ⟨-, -, rfl⟩ | ⟨e, v, s₁, -, -, he, -, -, -, rfl⟩
    · -- `RETURN` right after the line marker
      exact (hline (hC.of_extends (.push rfl))).sealed (size_setLine_le _ _)
        (hC.sealed_push rfl fun _ _ => Instruction.noConfusion)
    · -- the value, then `xRETURN`
      have hv := expr_confined e c _ _ _ he
      have hvs := hv.closed_of_starts hls (hC.of_extends (.push rfl))
      refine ((hline (hC.of_extends (hv.toExtends.trans (.push rfl)))).trans hvs (size_setLine_le _ _)
        hv.size_le).sealed (Nat.le_trans (size_setLine_le _ _) hv.size_le) ?_
      exact hC.sealed_push (by cases c.method.ret.kind <;> rfl)
        fun _ _ => Instruction.noConfusion
  | .block b, s, s', h, hs, hC, halw => by
    have hb := stmt_block_ok.1 h
    have hline := Emitter.Confined.setLine (e := s.emitter) b.span.line
    exact (hline.closed_of_starts hs (hC.of_extends (block_confined b c _ _ _ hb).toExtends)).sealed
      hline.size_le (block_sealed b hb (hline.labels hs) hC halw)
  | .ifElse cond thenB (some e) sp, s, s', h, hs, hC, halw => by
    obtain ⟨halwT, halwE⟩ : thenB.alwaysReturns = true ∧ e.alwaysReturns = true := by
      simpa [Stmt.alwaysReturns] using halw
    obtain ⟨s₁, s₂, hc, hthen, hrest⟩ := stmt_if_ok h
    rcases hrest with ⟨hne, _⟩ | ⟨_, he, _, hrun⟩ | ⟨_, _, _, hret, _⟩
    · cases hne
    · cases he
      -- `cond; IFEQ L; then; L: else`, where the then-block never reaches `L`
      have hline := Emitter.Confined.setLine (e := s.emitter) sp.line
      have hv := expr_confined cond c _ _ _ hc
      have hT := block_confined thenB c _ _ _ hthen
      have hE := stmt_confined e c _ _ _ hrun
      have hj : Emitter.Extends s₁.emitter (s₁.emitter.newLabel.2.jump .ifeq s₁.emitter.bound.size) :=
        Emitter.Extends.newLabel.jump (Nat.le_refl _) (by simp)
      -- `L` is still free after the then-block, so placing it appends it
      have hfresh : s₂.emitter.bound[s₁.emitter.bound.size]? = some false := by
        rw [hT.bound_keep _ (by simp)]
        simp
      have hplace := Emitter.place_code_of_fresh hfresh
      have hCk := hC.of_extends hE.toExtends
      have hC₂ : s₂.emitter.Starts C := hCk.earlier (Emitter.prefix_place _)
      have hCj := hC₂.of_extends hT.toExtends
      have hC₁ := hCj.of_extends hj
      have hs₀ := hline.labels hs
      have hsj := hj.labels (hv.labels hs₀)
      have hsT : Sealed C (s₁.emitter.code.size + 1) s₂.emitter.code.size := by
        simpa using block_sealed thenB hthen hsj hC₂ halwT
      have hsE : Sealed C (s₂.emitter.code.size + 1) s'.emitter.code.size := by
        simpa [hplace] using stmt_sealed e hrun (hT.labels hsj).place hC halwE
      have hcond : Closed C s.emitter.code.size s₁.emitter.code.size :=
        (hline.closed_of_starts hs (hC₁.of_extends hv.toExtends)).trans (hv.closed_of_starts hs₀ hC₁)
          hline.size_le hv.size_le
      exact hcond.sealed (Nat.le_trans hline.size_le hv.size_le)
        (sealed_branch (hCj.getElem?_of_code rfl) (hCk.getElem?_of_code hplace) (hC.unique _) (Nat.lt_of_succ_lt hsT.lt)
          (hsT.mono (Nat.le_of_lt (Nat.lt_of_succ_lt hsE.lt))) (sealed_label (hCk.getElem?_of_code hplace) hsE))
    · rw [halwT] at hret
      cases hret
  | .ifElse _ _ none _, _, _, _, _, _, halw => by cases halw
  | .expr .., _, _, _, _, _, halw => by cases halw
  | .letDecl .., _, _, _, _, _, halw => by cases halw
  | .while .., _, _, _, _, _, halw => by cases halw

theorem block_sealed : ∀ (b : Block) {s s' : GenState}, block b c s = .ok ((), s') →
    s.emitter.LabelsOk → s'.emitter.Starts C → b.alwaysReturns = true →
    Sealed C s.emitter.code.size s'.emitter.code.size
  | .mk stmts _, s, s', h, hs, hC, halw => by
    obtain ⟨s₁, h₁, rfl⟩ := block_ok.1 h
    exact (stmtList_sealed stmts h₁ hs hC halw :)

theorem stmtList_sealed : ∀ (stmts : List Stmt) {s s' : GenState}, stmtList stmts c s = .ok ((), s') →
    s.emitter.LabelsOk → s'.emitter.Starts C → Stmt.anyReturns stmts = true →
    Sealed C s.emitter.code.size s'.emitter.code.size
  | [], _, _, _, _, _, halw => by cases halw
  | st :: rest, s, s', h, hs, hC, halw => by
    obtain ⟨s₁, h₁, h₂⟩ := stmtList_cons_ok.1 h
    have hst := stmt_confined st c _ _ _ h₁
    have hrest := stmtList_confined rest c _ _ _ h₂
    cases hret : st.alwaysReturns
    · -- the statement leads on to the rest, which always returns
      have hany : Stmt.anyReturns rest = true := by simpa [Stmt.anyReturns, hret] using halw
      exact (hst.closed_of_starts hs (hC.of_extends hrest.toExtends)).sealed hst.size_le
        (stmtList_sealed rest h₂ (hst.labels hs) hC hany)
    · exact (stmt_sealed st h₁ hs (hC.of_extends hrest.toExtends) hret).mono hrest.size_le

end

end Gen

/-! ### Methods -/

namespace Gen

variable {c : MethodContext}

theorem Confined.forIn_list {α β : Type} {f : α → β → Gen (ForInStep β)} (hf : ∀ x b, Confined (f x b)) :
    ∀ (xs : List α) (b : β), Confined (ForIn.forIn xs b f)
  | [], b => Confined.pure b
  | x :: xs, b => by
    rw [List.forIn_cons]
    refine (hf x b).bind fun r => ?_
    cases r with
    | done b' => exact Confined.pure b'
    | yield b' => exact forIn_list hf xs b'

theorem declareParams_confined : Confined declareParams := by
  unfold declareParams
  refine Confined.read.bind fun c => ?_
  dsimp only
  refine (Confined.forIn_list (fun x _ => ?_) _ _).bind fun _ => Confined.pure _
  obtain ⟨t, i⟩ := x
  exact Confined.withScope.bind fun _ => Confined.pure _

/-- Control never runs off the end of a method body compiled from a fresh
    emitter: a void method ends in `RETURN` or where control does not come,
    and any other method ends in statements that always return. -/
theorem methodBody_not_fallsOff {decl : FnDecl} {lineNumbers : Bool} {sc : Scope} {s' : GenState}
    (h : methodBody decl c ⟨Emitter.new lineNumbers, sc⟩ = .ok ((), s')) :
    ¬ FallsOff s'.emitter.code.toList := by
  unfold methodBody at h
  obtain ⟨_, s₀, hp, h₁⟩ := bind_ok.1 h
  obtain ⟨_, s₁, hb, h₂⟩ := bind_ok.1 h₁
  obtain ⟨_, _, hc, h₃⟩ := bind_ok.1 h₂
  obtain ⟨rfl, rfl⟩ := read_ok.1 hc
  have hP := declareParams_confined _ _ _ _ hp
  have hB := stmtList_confined _ _ _ _ _ hb
  have hnew := Emitter.labelsOk_new lineNumbers
  split at h₃
  · -- a void method: the end is left unreachable, or closed by `RETURN`
    obtain ⟨_, _, hg, h₄⟩ := bind_ok.1 h₃
    obtain ⟨rfl, rfl⟩ := get_ok.1 hg
    apply not_fallsOff_of_reachableEnd
    split at h₄
    · rw [out_ok.1 h₄, Emitter.emit_eq, Emitter.reachableEnd_push]
      rfl
    · rename_i hend
      obtain ⟨-, rfl⟩ := pure_ok.1 h₄
      simpa using hend
  · split at h₃
    · exact absurd h₃ fail_ne
    · -- the statements always return, so their code is sealed
      rename_i halw
      obtain ⟨-, rfl⟩ := pure_ok.1 h₃
      have hC := ((hP.trans hB).labels hnew).starts
      exact ((hP.closed_of_starts hnew (hC.of_extends hB.toExtends)).sealed hP.size_le
        (stmtList_sealed _ hb (hP.labels hnew) hC (by simpa [Syntax.Block.alwaysReturns_eq] using halw))).not_path

end Gen

/-- A finished body is the code of the emitter. -/
theorem Emitter.finish_code {e : Emitter} {n : Nat} {code : Code} (h : e.finish n = .ok code) :
    code.instructions = e.code := by
  unfold Emitter.finish at h
  split at h
  · cases h
  · cases h
    rfl

/-- Control never runs off the end of a compiled method. -/
theorem compileMethod_not_fallsOff {c : MethodContext} {decl : FnDecl} {code : Code}
    (h : compileMethod c decl = .ok code) : ¬ FallsOff code.instructions.toList := by
  unfold compileMethod at h
  obtain ⟨⟨_, s⟩, hrun, h⟩ := Except.bind_eq_ok.1 h
  rw [Emitter.finish_code h]
  exact Gen.methodBody_not_fallsOff hrun

/-- A generated constructor ends in `RETURN`. -/
theorem constructorCode_not_fallsOff {d : TypeDecl} {ctor : MethodSig} {code : Code}
    (h : constructorCode d ctor = .ok code) : ¬ FallsOff code.instructions.toList := by
  unfold constructorCode at h
  obtain ⟨_, -, h⟩ := Except.bind_eq_ok.1 h
  rw [Emitter.finish_code h]
  apply not_fallsOff_of_reachableEnd
  rw [Emitter.emit_eq, Emitter.reachableEnd_push]
  rfl

/-- No compiled method runs off the end of its code: from the first entry of a
    body, control never comes past its last one. Behind it, for any statement
    that always returns, the code compiled for it never leads from its start
    to its end, in any finished body that holds it. -/
theorem compile_never_falls_off {src : SourceSet} {records : List ClassRecord}
    (h : src.compile = .ok records) :
    (∀ r ∈ records, ∀ m ∈ r.methods, ∀ code, m.code = some code → ¬ FallsOff code.instructions.toList) ∧
    ∀ (c : MethodContext) (st : Stmt) (s s' : GenState) (C : List Instruction),
      Gen.stmt st c s = .ok ((), s') → s.emitter.LabelsOk → s'.emitter.Starts C → st.alwaysReturns = true →
      ¬ ReflTransGen (Flow.Step C) s.emitter.code.size s'.emitter.code.size := by
  refine ⟨fun r hr m hm code hc => ?_, fun c st s s' C hst hs hC halw => (Gen.stmt_sealed st hst hs hC halw).not_path⟩
  rcases SourceSet.compile_body h hr hm hc with ⟨_, _, hcode⟩ | ⟨_, _, hcode⟩
  · exact compileMethod_not_fallsOff hcode
  · exact constructorCode_not_fallsOff hcode

/-- A program with a struct, an `if` chain whose branches all return, and a
    void method ending in a loop compiles, and none of its bodies runs off its
    end. -/
theorem compile_never_falls_off_sample : ∃ records,
    ((SourceSet.empty ⟨.static, false⟩).add "main.atp"
      ("struct Counter \x7b n: int; \x7d\n" ++
       "fn sign(x: int): int \x7b if (x < 0) \x7b return -1; \x7d else if (x == 0) \x7b return 0; \x7d " ++
       "else \x7b return 1; \x7d \x7d\n" ++
       "fn spin(limit: int) \x7b let i = 0; while (i < limit) \x7b i = i + 1; \x7d \x7d\n")).compile =
      .ok records ∧
    ∀ r ∈ records, ∀ m ∈ r.methods, ∀ code, m.code = some code → ¬ FallsOff code.instructions.toList := by
  refine (Except.exists_ok_of_toBool ?_).imp fun _ h => ⟨h, (compile_never_falls_off h).1⟩
  decide +kernel

end ClassCompiler
