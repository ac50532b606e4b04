import ClassCompiler.Proofs.Codegen.Monad
import ClassCompiler.Proofs.Machine.Exec

/-!
# Where generated code sits

* `Emitter.LabelsOk`: every label placed so far stands exactly once in the
  code, and no other label does. Every emitter operation keeps it, so in a
  finished body a jump goes to the one place its label stands.
* `Grows s s'`: code generation from `s` to `s'` only appended code and kept
  the label invariant;
* `intConst`, `longConst`: the entry the emitter chooses for a constant, and
  that it pushes the constant.
-/

namespace ClassCompiler

open Machine

namespace Emitter

/-- Every placed label stands once in the code; no other label stands in it. -/
def LabelsOk (e : Emitter) : Prop :=
  ∀ l, e.code.toList.count (.label l) = if e.isBound l then 1 else 0

variable {e : Emitter}

/-- An instruction that is not a label. -/
def NotLabel (i : Instruction) : Prop := ∀ l, i ≠ .label l

@[simp] theorem push_code (i : Instruction) : (e.push i).code = e.code.push i := rfl

@[simp] theorem push_bound (i : Instruction) : (e.push i).bound = e.bound := rfl

@[simp] theorem push_lineNumbers (i : Instruction) : (e.push i).lineNumbers = e.lineNumbers := rfl

@[simp] theorem push_currentLine (i : Instruction) : (e.push i).currentLine = e.currentLine := rfl

theorem emit_eq (op : Opcode) : e.emit op = e.push (.simple op) := rfl

/-- Emitting operand-free instructions one after the other. -/
theorem foldl_emit (ops : List Opcode) (e : Emitter) :
    ops.foldl Emitter.emit e = { e with code := e.code ++ (ops.map Instruction.simple).toArray } := by
  induction ops generalizing e with
  | nil => simp
  | cons op ops ih =>
    rw [List.foldl_cons, ih, emit_eq]
    simp [Array.push, List.append_assoc]

/-- A label that is known and not yet placed is placed by appending it. -/
theorem place_code_of_fresh {l : Nat} (hfree : e.bound[l]? = some false) :
    (e.place l).code = e.code.push (.label l) := by
  obtain ⟨hl, hb⟩ := Array.getElem?_eq_some_iff.1 hfree
  simp [place, isBound, hl, hb, push]

@[simp] theorem place_bound_size (l : Nat) : (e.place l).bound.size = e.bound.size := by
  unfold place
  split <;> simp

theorem place_bound_ne {l l' : Nat} (h : l' ≠ l) : (e.place l).bound[l']? = e.bound[l']? := by
  unfold place
  split
  · simp [Ne.symm h]
  · rfl

@[simp] theorem jump_bound (op : Opcode) (l : Nat) : (e.jump op l).bound = e.bound := rfl

@[simp] theorem jump_code (op : Opcode) (l : Nat) : (e.jump op l).code = e.code.push (.jump op l) := rfl

@[simp] theorem emit_bound (op : Opcode) : (e.emit op).bound = e.bound := rfl

@[simp] theorem emit_code (op : Opcode) : (e.emit op).code = e.code.push (.simple op) := rfl

@[simp] theorem newLabel_bound : e.newLabel.2.bound = e.bound.push false := rfl

@[simp] theorem newLabel_code : e.newLabel.2.code = e.code := rfl

@[simp] theorem newLabel_fst : e.newLabel.1 = e.bound.size := rfl

@[simp] theorem setLine_bound (l : Nat) : (e.setLine l).bound = e.bound := by
  unfold setLine
  split <;> rfl

@[simp] theorem setLine_lineNumbers (l : Nat) : (e.setLine l).lineNumbers = e.lineNumbers := by
  unfold setLine
  split <;> rfl

/-- A line marker is added only when line numbers are on and the line changes. -/
theorem setLine_code (l : Nat) : (e.setLine l).code = e.code ∨ (e.setLine l).code = e.code.push (.line l) := by
  unfold setLine
  split
  · exact .inr rfl
  · exact .inl rfl

theorem LabelsOk.push {i : Instruction} (h : e.LabelsOk) (hi : NotLabel i) : (e.push i).LabelsOk := by
  intro l
  have := hi l
  simp only [Emitter.push, Array.toList_push, List.count_append, List.count_singleton, beq_iff_eq,
    this, if_false, Nat.add_zero]
  exact h l

theorem LabelsOk.newLabel (h : e.LabelsOk) : e.newLabel.2.LabelsOk := by
  intro l
  -- the new label is not placed; every other label keeps its state
  have hb : e.newLabel.2.isBound l = e.isBound l := by
    simp only [Emitter.newLabel, isBound, Array.getD_eq_getD_getElem?, Array.getElem?_push]
    split
    · subst_vars
      simp
    · rfl
  rw [hb]
  exact h l

theorem LabelsOk.place {l : Nat} (h : e.LabelsOk) : (e.place l).LabelsOk := by
  unfold Emitter.place
  split
  · rename_i hfresh
    simp only [Bool.and_eq_true, decide_eq_true_eq, Bool.not_eq_eq_eq_not, Bool.not_true, isBound,
      Array.getD_eq_getD_getElem?] at hfresh
    intro l'
    simp only [Emitter.push, Array.toList_push, List.count_append, List.count_singleton, beq_iff_eq,
      Instruction.label.injEq, isBound, Array.getD_eq_getD_getElem?, Array.getElem?_setIfInBounds]
    rw [h l']
    by_cases hl : l = l'
    · subst hl
      have hfalse : e.bound[l] = false := by
        simpa [Array.getElem?_eq_getElem hfresh.1] using hfresh.2
      simp [hfresh.1, isBound, Array.getD_eq_getD_getElem?, hfalse]
    · simp [hl, isBound, Array.getD_eq_getD_getElem?]
  · exact h

/-! ### Whether control reaches the end -/

/-- An entry that is an operation after which control goes on to the next. -/
def Continues (i : Instruction) : Prop := i.opcode?.isSome = true ∧ i.fallsThrough = true

/-- The last operation or label decides whether the end is reachable. -/
theorem reachableEnd_push (i : Instruction) :
    (e.push i).reachableEnd =
      if (i.opcode?.isSome || i matches .label _) = true then i.fallsThrough else e.reachableEnd := by
  unfold reachableEnd
  simp only [push, Array.toList_push, List.reverse_append, List.reverse_cons, List.reverse_nil,
    List.nil_append, List.singleton_append, List.find?_cons]
  cases (i.opcode?.isSome || i matches .label _) <;> rfl

theorem reachableEnd_of_code {e' : Emitter} (h : e'.code = e.code) : e'.reachableEnd = e.reachableEnd := by
  unfold reachableEnd
  rw [h]

theorem reachableEnd_push_continues {i : Instruction} (h : Continues i) : (e.push i).reachableEnd = true := by
  rw [reachableEnd_push, if_pos (by simp [h.1])]
  exact h.2

theorem continues_simple {op : Opcode} (h : op.endsBlock = false) : Continues (.simple op) :=
  ⟨rfl, by simp [Instruction.fallsThrough, Instruction.opcode?, h]⟩

theorem reachableEnd_emit {op : Opcode} (h : op.endsBlock = false) : (e.emit op).reachableEnd = true :=
  reachableEnd_push_continues (continues_simple h)

/-- Placing a label adds it, unless it was placed already. -/
theorem place_code (l : Nat) : (e.place l).code = e.code.push (.label l) ∨ (e.place l).code = e.code := by
  unfold place
  split
  · exact .inl rfl
  · exact .inr rfl

theorem prefix_place (l : Nat) : e.code.toList <+: (e.place l).code.toList := by
  rcases place_code (e := e) l with h | h
  · rw [h, Array.toList_push]
    exact List.prefix_append _ _
  · simp only [h, List.prefix_refl]

theorem reachableEnd_place {l : Nat} (h : e.reachableEnd = true) : (e.place l).reachableEnd = true := by
  rcases place_code (e := e) l with hc | hc
  · rw [reachableEnd_of_code (e := e.push (.label l)) hc, reachableEnd_push,
      if_pos (by simp [Instruction.opcode?])]
    rfl
  · rw [reachableEnd_of_code hc, h]

/-- A label placed for the first time makes the end reachable: jumps come to it. -/
theorem reachableEnd_place_fresh {l : Nat} (hfree : e.bound[l]? = some false) :
    (e.place l).reachableEnd = true := by
  rw [reachableEnd_of_code (e := e.push (.label l)) (place_code_of_fresh hfree), reachableEnd_push,
    if_pos (by simp [Instruction.opcode?])]
  rfl

@[simp] theorem reachableEnd_setLine (l : Nat) : (e.setLine l).reachableEnd = e.reachableEnd := by
  rcases setLine_code (e := e) l with hc | hc
  · exact reachableEnd_of_code hc
  · rw [reachableEnd_of_code (e := e.push (.line l)) hc, reachableEnd_push,
      if_neg (by simp [Instruction.opcode?])]

@[simp] theorem reachableEnd_newLabel : e.newLabel.2.reachableEnd = e.reachableEnd := rfl

theorem reachableEnd_pop (t : Ty) (h : e.reachableEnd = true) : (e.pop t).reachableEnd = true := by
  unfold pop
  split
  · exact h
  · exact reachableEnd_emit rfl
  · exact reachableEnd_emit rfl

theorem reachableEnd_foldl_emit {ops : List Opcode} (hops : ∀ op ∈ ops, op.endsBlock = false)
    (h : e.reachableEnd = true) : (ops.foldl Emitter.emit e).reachableEnd = true := by
  induction ops generalizing e with
  | nil => exact h
  | cons op ops ih =>
    exact ih (fun o ho => hops o (List.mem_cons_of_mem _ ho)) (reachableEnd_emit (hops op List.mem_cons_self))

end Emitter

/-- Code generation from `s` to `s'` only appended code, kept the label
    invariant and the line-number option, took no slot back, and left the
    labels known at `s` as they were: it places only labels of its own. -/
structure Grows (s s' : GenState) : Prop where
  prefix_ : s.emitter.code.toList <+: s'.emitter.code.toList
  labels : s.emitter.LabelsOk → s'.emitter.LabelsOk
  lineNumbers : s'.emitter.lineNumbers = s.emitter.lineNumbers
  next_le : s.scope.next ≤ s'.scope.next
  bound_keep : ∀ l < s.emitter.bound.size, s'.emitter.bound[l]? = s.emitter.bound[l]?

namespace Grows

variable {s s₁ s₂ : GenState}

theorem refl (s : GenState) : Grows s s :=
  ⟨List.prefix_refl _, id, rfl, Nat.le_refl _, fun _ _ => rfl⟩

/-- The labels known at the start stay known. -/
theorem bound_size_le (h : Grows s s₁) : s.emitter.bound.size ≤ s₁.emitter.bound.size := by
  cases hs : s.emitter.bound.size with
  | zero => exact Nat.zero_le _
  | succ n =>
    have hkeep := h.bound_keep n (by omega)
    have hlt : n < s.emitter.bound.size := by omega
    rw [Array.getElem?_eq_getElem hlt] at hkeep
    obtain ⟨hn, _⟩ := Array.getElem?_eq_some_iff.1 hkeep
    omega

theorem trans (h₁ : Grows s s₁) (h₂ : Grows s₁ s₂) : Grows s s₂ :=
  ⟨h₁.prefix_.trans h₂.prefix_, h₂.labels ∘ h₁.labels, h₂.lineNumbers.trans h₁.lineNumbers,
    Nat.le_trans h₁.next_le h₂.next_le, fun l hl => by
      rw [h₂.bound_keep l (Nat.lt_of_lt_of_le hl h₁.bound_size_le), h₁.bound_keep l hl]⟩

theorem push {i : Instruction} (hi : Emitter.NotLabel i) :
    Grows s { s with emitter := s.emitter.push i } :=
  ⟨by simp, fun h => h.push hi, rfl, Nat.le_refl _, fun _ _ => rfl⟩

theorem newLabel : Grows s { s with emitter := s.emitter.newLabel.2 } :=
  ⟨List.prefix_refl _, fun h => h.newLabel, rfl, Nat.le_refl _, fun l hl => by
    simp [Array.getElem?_push, Nat.ne_of_lt hl]⟩

/-- Placing a label made after `s`. -/
theorem place_new {l : Nat} (h : Grows s s₁) (hl : s.emitter.bound.size ≤ l) :
    Grows s { s₁ with emitter := s₁.emitter.place l } where
  prefix_ := h.prefix_.trans (by unfold Emitter.place; split <;> simp)
  labels hs := (h.labels hs).place
  lineNumbers := by
    rw [← h.lineNumbers]
    unfold Emitter.place
    split <;> rfl
  next_le := h.next_le
  bound_keep l' hl' := by
    rw [Emitter.place_bound_ne (by omega), h.bound_keep l' hl']

theorem scope {sc : Scope} (h : s.scope.next ≤ sc.next) : Grows s { s with scope := sc } :=
  ⟨List.prefix_refl _, id, rfl, h, fun _ _ => rfl⟩

/-- A label made at `s` and not placed up to `s'` is free there. -/
theorem fresh (h : Grows { s with emitter := s.emitter.newLabel.2 } s₁) :
    s₁.emitter.bound[s.emitter.bound.size]? = some false := by
  rw [h.bound_keep _ (by simp)]
  simp

theorem emit (op : Opcode) : Grows s { s with emitter := s.emitter.emit op } :=
  Grows.push fun _ => Instruction.noConfusion

theorem jump (op : Opcode) (l : Nat) : Grows s { s with emitter := s.emitter.jump op l } :=
  Grows.push fun _ => Instruction.noConfusion

theorem store (t : Ty) (slot : Nat) : Grows s { s with emitter := s.emitter.store t slot } :=
  Grows.push fun _ => Instruction.noConfusion

theorem setLine (l : Nat) : Grows s { s with emitter := s.emitter.setLine l } where
  prefix_ := by rcases Emitter.setLine_code (e := s.emitter) l with h | h <;> simp [h]
  labels hs := by
    unfold Emitter.setLine
    split
    · exact hs.push fun _ => Instruction.noConfusion
    · exact hs
  lineNumbers := Emitter.setLine_lineNumbers l
  next_le := Nat.le_refl _
  bound_keep _ _ := by rw [Emitter.setLine_bound]

theorem pop (t : Ty) : Grows s { s with emitter := s.emitter.pop t } := by
  unfold Emitter.pop
  split
  · exact Grows.refl s
  · exact Grows.emit _
  · exact Grows.emit _

end Grows

/-! ### Constants -/

/-- The entry `emitInt` chooses for an int. -/
def intConst (v : Int32) : Instruction :=
  match v.toInt with
  | -1 => .simple .iconstM1
  | 0 => .simple .iconst0
  | 1 => .simple .iconst1
  | 2 => .simple .iconst2
  | 3 => .simple .iconst3
  | 4 => .simple .iconst4
  | 5 => .simple .iconst5
  | n =>
    if -128 ≤ n ∧ n ≤ 127 then .immediate .bipush v
    else if -32768 ≤ n ∧ n ≤ 32767 then .immediate .sipush v
    else .ldc (.int v)

/-- The entry `emitLong` chooses for a long. -/
def longConst (v : Int64) : Instruction :=
  match v.toInt with
  | 0 => .simple .lconst0
  | 1 => .simple .lconst1
  | _ => .ldc (.long v)

theorem Emitter.emitInt_eq (e : Emitter) (v : Int32) : e.emitInt v = e.push (intConst v) := by
  unfold Emitter.emitInt intConst
  -- both sides match on the same number
  generalize v.toInt = n
  split <;> simp_all [Emitter.emit_eq, apply_ite (Emitter.push e)]

theorem Emitter.emitLong_eq (e : Emitter) (v : Int64) : e.emitLong v = e.push (longConst v) := by
  unfold Emitter.emitLong longConst
  generalize v.toInt = n
  split <;> simp_all [Emitter.emit_eq]

theorem intConst_notLabel (v : Int32) : Emitter.NotLabel (intConst v) := by
  intro l
  unfold intConst
  split
  all_goals first | exact Instruction.noConfusion | skip
  split
  · exact Instruction.noConfusion
  · split <;> exact Instruction.noConfusion

theorem longConst_notLabel (v : Int64) : Emitter.NotLabel (longConst v) := by
  intro l
  unfold longConst
  split <;> exact Instruction.noConfusion

/-- A constant goes on to the next entry: the small ones have an opcode of
    their own, the others are pushed by `BIPUSH`, `SIPUSH` or `LDC`. -/
theorem intConst_continues (v : Int32) : Emitter.Continues (intConst v) := by
  unfold intConst
  split
  any_goals exact Emitter.continues_simple rfl
  split
  · exact ⟨rfl, rfl⟩
  · split
    · exact ⟨rfl, rfl⟩
    · exact ⟨rfl, rfl⟩

theorem longConst_continues (v : Int64) : Emitter.Continues (longConst v) := by
  unfold longConst
  split
  · exact Emitter.continues_simple rfl
  · exact Emitter.continues_simple rfl
  · exact ⟨rfl, rfl⟩

theorem load_continues (k : Kind) (n : Nat) : Emitter.Continues (.slot (Opcode.loadFor k) n) := by
  cases k <;> exact ⟨rfl, rfl⟩

theorem store_continues (k : Kind) (n : Nat) : Emitter.Continues (.slot (Opcode.storeFor k) n) := by
  cases k <;> exact ⟨rfl, rfl⟩

theorem invoke_continues (d : TypeDecl) (sig : MethodSig) : Emitter.Continues (Gen.invokeInstruction d sig) := by
  unfold Gen.invokeInstruction Emitter.invokeRef
  split
  · exact ⟨rfl, rfl⟩
  · split
    · exact ⟨rfl, rfl⟩
    · exact ⟨rfl, rfl⟩

section Exec

variable {m : State} {f : Frame}

/-- An int constant pushes itself, whichever entry holds it. -/
theorem exec_intConst (v : Int32) : exec m f (intConst v) = .ok (.next m (f.push (.int v))) := by
  have hv : v = Int32.ofInt v.toInt := (Int32.ofInt_toInt v).symm
  unfold intConst
  generalize v.toInt = n at hv
  split
  -- a constant instruction pushes the number it names, which is `v`
  all_goals first | (subst hv; rfl) | skip
  split
  · exact exec_immediate (by decide) v
  · split
    · exact exec_immediate (by decide) v
    · exact exec_ldc_int v

theorem exec_longConst (v : Int64) : exec m f (longConst v) = .ok (.next m (f.push (.long v))) := by
  have hv : v = Int64.ofInt v.toInt := (Int64.ofInt_toInt v).symm
  unfold longConst
  generalize v.toInt = n at hv
  split
  · subst hv
    rfl
  · subst hv
    rfl
  · exact exec_ldc_long v

end Exec

end ClassCompiler
