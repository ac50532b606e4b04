import ClassCompiler.Proofs.Machine.Run

/-!
# One entry at a time

What executing one entry does to the top frame, for the entries that numbers,
local variables, jumps and static calls compile to. Each lemma gives the
result of `exec` from what the entry finds on the operand stack, so that a
proof about a run never unfolds the machine.

* labels and line markers do nothing;
* constants, loads and stores move values between the code, the locals and
  the operand stack (a `long` takes two words: the value and `top` above it);
* int and long arithmetic wrap; a division or remainder by zero is the error
  `ArithmeticException: / by zero`;
* a jump goes to the place of its label when taken, and on otherwise;
* `CodeAt C p seg`: the entries `seg` stand in `C` from position `p` on, and
  a jump goes to where its label stands when the label stands once;
* `runSimple`: operand-free instructions one after the other, and
  `Moves.simples`, the steps they take.
-/

namespace ClassCompiler.Machine

variable {m : State} {f : Frame}

@[simp] theorem Stack.push_int (v : Int32) (st : List Value) : Stack.push (.int v) st = .int v :: st :=
  rfl

@[simp] theorem Stack.push_long (v : Int64) (st : List Value) :
    Stack.push (.long v) st = .top :: .long v :: st :=
  rfl

@[simp] theorem Stack.pop_int (v : Int32) (st : List Value) : Stack.pop (.int v :: st) = .ok (.int v, st) :=
  rfl

@[simp] theorem Stack.pop_long (v : Int64) (st : List Value) :
    Stack.pop (.top :: .long v :: st) = .ok (.long v, st) :=
  rfl

theorem Frame.push_eq (f : Frame) (v : Value) : f.push v = { f with stack := Stack.push v f.stack } :=
  rfl

/-- A value pushed is the value popped, both words of a wide one. -/
theorem Stack.pop_push {v : Value} (hv : v ≠ .top) (st : List Value) :
    Stack.pop (Stack.push v st) = .ok (v, st) := by
  unfold Stack.push
  split <;> simp [Stack.pop, Stack.rawPop, hv, bind, Except.bind, pure, Except.pure]

/-! ### Entries without an operation -/

theorem exec_label (l : Nat) : exec m f (.label l) = .ok (.next m f) := rfl

theorem exec_line (n : Nat) : exec m f (.line n) = .ok (.next m f) := rfl

/-! ### Operand-free instructions -/

theorem exec_simple {op : Opcode} {m' : State} {st : List Value}
    (h : simple m f.stack op = .ok (.inl (m', st))) :
    exec m f (.simple op) = .ok (.next m' { f with stack := st }) := by
  simp only [exec, h]
  rfl

theorem exec_simple_ret {op : Opcode} {v : Option Value} (h : simple m f.stack op = .ok (.inr v)) :
    exec m f (.simple op) = .ok (.ret m v) := by
  simp only [exec, h]
  rfl

theorem exec_simple_error {op : Opcode} {e : Fault} (h : simple m f.stack op = .error e) :
    exec m f (.simple op) = .error e := by
  simp only [exec, h]
  rfl

section Simple

variable {st : List Value}

/-- The int operations that cannot fail. -/
def IntTotalOp (op : Opcode) : Prop :=
  op = .iadd ∨ op = .isub ∨ op = .imul ∨ op = .iand ∨ op = .ior ∨ op = .ixor

theorem simple_int_total {op : Opcode} (hop : IntTotalOp op) (a b : Int32) :
    simple m (.int b :: .int a :: st) op = .ok (.inl (m, .int (intOp op a b) :: st)) := by
  rcases hop with rfl | rfl | rfl | rfl | rfl | rfl <;> rfl

/-- Division and remainder by a non-zero int. -/
theorem simple_int_divide {op : Opcode} (hop : op = .idiv ∨ op = .irem) {a b : Int32} (hb : b ≠ 0) :
    simple m (.int b :: .int a :: st) op = .ok (.inl (m, .int (intOp op a b) :: st)) := by
  -- the definition's own equation: its equations case by case are slow to derive
  rcases hop with rfl | rfl <;> unfold simple <;>
    simp [Stack.popInt, Stack.pop, Stack.rawPop, Value.asInt, hb, bind, Except.bind, pure, Except.pure]

theorem simple_int_divide_zero {op : Opcode} (hop : op = .idiv ∨ op = .irem) (a : Int32) :
    simple m (.int 0 :: .int a :: st) op = fail "ArithmeticException: / by zero" := by
  rcases hop with rfl | rfl <;> rfl

/-- The long operations that cannot fail. -/
def LongTotalOp (op : Opcode) : Prop := op = .ladd ∨ op = .lsub ∨ op = .lmul

theorem simple_long_total {op : Opcode} (hop : LongTotalOp op) (a b : Int64) :
    simple m (.top :: .long b :: .top :: .long a :: st) op =
      .ok (.inl (m, .top :: .long (longOp op a b) :: st)) := by
  rcases hop with rfl | rfl | rfl <;> rfl

theorem simple_long_divide {op : Opcode} (hop : op = .ldiv ∨ op = .lrem) {a b : Int64} (hb : b ≠ 0) :
    simple m (.top :: .long b :: .top :: .long a :: st) op =
      .ok (.inl (m, .top :: .long (longOp op a b) :: st)) := by
  rcases hop with rfl | rfl <;> unfold simple <;>
    simp [Stack.popLong, Stack.pop, Stack.rawPop, Value.asLong, hb, bind, Except.bind, pure, Except.pure]

theorem simple_long_divide_zero {op : Opcode} (hop : op = .ldiv ∨ op = .lrem) (a : Int64) :
    simple m (.top :: .long 0 :: .top :: .long a :: st) op = fail "ArithmeticException: / by zero" := by
  rcases hop with rfl | rfl <;> rfl

theorem simple_ineg (a : Int32) : simple m (.int a :: st) .ineg = .ok (.inl (m, .int (-a) :: st)) :=
  rfl

theorem simple_lneg (a : Int64) :
    simple m (.top :: .long a :: st) .lneg = .ok (.inl (m, .top :: .long (-a) :: st)) :=
  rfl

theorem simple_i2l (a : Int32) :
    simple m (.int a :: st) .i2l = .ok (.inl (m, .top :: .long a.toInt64 :: st)) :=
  rfl

theorem simple_l2i (a : Int64) : simple m (.top :: .long a :: st) .l2i = .ok (.inl (m, .int a.toInt32 :: st)) :=
  rfl

theorem simple_i2b (a : Int32) : simple m (.int a :: st) .i2b = .ok (.inl (m, .int a.toInt8.toInt32 :: st)) :=
  rfl

theorem simple_i2c (a : Int32) :
    simple m (.int a :: st) .i2c = .ok (.inl (m, .int (Int32.ofNat (a.toBitVec.toNat % 65536)) :: st)) :=
  rfl

theorem simple_i2s (a : Int32) :
    simple m (.int a :: st) .i2s = .ok (.inl (m, .int a.toInt16.toInt32 :: st)) :=
  rfl

theorem simple_lcmp (a b : Int64) :
    simple m (.top :: .long b :: .top :: .long a :: st) .lcmp =
      .ok (.inl (m, .int (Ordering.toInt32 (compare a b)) :: st)) :=
  rfl

theorem simple_pop (v : Value) : simple m (v :: st) .pop = .ok (.inl (m, st)) := rfl

theorem simple_pop2 (v w : Value) : simple m (v :: w :: st) .pop2 = .ok (.inl (m, st)) := rfl

theorem simple_ireturn (a : Int32) : simple m (.int a :: st) .ireturn = .ok (.inr (some (.int a))) := rfl

theorem simple_lreturn (a : Int64) :
    simple m (.top :: .long a :: st) .lreturn = .ok (.inr (some (.long a))) :=
  rfl

theorem simple_return : simple m st .returnVoid = .ok (.inr none) := rfl

end Simple

/-! ### Positions in the code -/

/-- The instructions `seg` stand in `C` from position `p` on. -/
def CodeAt (C : List Instruction) (p : Nat) (seg : List Instruction) : Prop :=
  ∃ pre post, C = pre ++ seg ++ post ∧ pre.length = p

namespace CodeAt

variable {C : List Instruction} {p : Nat} {i : Instruction} {seg seg₁ seg₂ : List Instruction}

theorem getElem? (h : CodeAt C p (i :: seg)) : C[p]? = some i := by
  obtain ⟨pre, post, rfl, rfl⟩ := h
  simp

theorem tail (h : CodeAt C p (i :: seg)) : CodeAt C (p + 1) seg := by
  obtain ⟨pre, post, rfl, rfl⟩ := h
  exact ⟨pre ++ [i], post, by simp, by simp⟩

theorem app_left (h : CodeAt C p (seg₁ ++ seg₂)) : CodeAt C p seg₁ := by
  obtain ⟨pre, post, rfl, rfl⟩ := h
  exact ⟨pre, seg₂ ++ post, by simp, rfl⟩

theorem app_right (h : CodeAt C p (seg₁ ++ seg₂)) : CodeAt C (p + seg₁.length) seg₂ := by
  obtain ⟨pre, post, rfl, rfl⟩ := h
  exact ⟨pre ++ seg₁, post, by simp, by simp⟩

theorem head (h : CodeAt C p (i :: seg)) : CodeAt C p [i] := by
  obtain ⟨pre, post, rfl, rfl⟩ := h
  exact ⟨pre, seg ++ post, by simp, rfl⟩

/-- The entry a frame fetches. -/
theorem fetch {f : Frame} (h : CodeAt f.code.instructions.toList f.pc (i :: seg)) :
    f.code.instructions[f.pc]? = some i := by
  simpa using h.getElem?

/-- The entries appended after a prefix of the code stand right after it. -/
theorem of_append {a : Array Instruction} (h : a.toList ++ seg <+: C) : CodeAt C a.size seg := by
  obtain ⟨post, hC⟩ := h
  exact ⟨a.toList, post, hC.symm, by simp⟩

/-- The code between two states of a generator that only appended. -/
theorem of_prefix {a b : List Instruction} (hab : a <+: b) (hb : b <+: C) :
    CodeAt C a.length (b.drop a.length) := by
  obtain ⟨t, rfl⟩ := hab
  obtain ⟨u, rfl⟩ := hb
  exact ⟨a, u, by simp, rfl⟩

end CodeAt

/-- A label standing once, with no copy after it, is where jumps to it go. -/
theorem labelAt?_append {l : Nat} {pre post : List Instruction} (hpost : Instruction.label l ∉ post) :
    labelAt? l (pre ++ .label l :: post) = some pre.length := by
  have hnone : ∀ xs : List Instruction, .label l ∉ xs → labelAt? l xs = none := by
    intro xs hxs
    induction xs with
    | nil => rfl
    | cons x xs ih =>
      have hx : x ≠ .label l := fun h => hxs (h ▸ List.mem_cons_self)
      simp only [labelAt?, ih (fun h => hxs (List.mem_cons_of_mem _ h)), hx, if_false]
  induction pre with
  | nil => simp [labelAt?, hnone post hpost]
  | cons x pre ih => simp [labelAt?, ih]

/-- Every label stands at most once in the code. -/
def LabelsOnce (code : Code) : Prop := ∀ l, code.instructions.toList.count (.label l) ≤ 1

/-- In code where a label stands at most once, a jump to it goes where it
    stands. -/
theorem labelAt?_of_codeAt {C : List Instruction} {q l : Nat} (h : CodeAt C q [.label l])
    (huniq : C.count (.label l) ≤ 1) : labelAt? l C = some q := by
  obtain ⟨pre, post, rfl, rfl⟩ := h
  have : Instruction.label l ∉ post := by
    intro hmem
    have := List.count_pos_iff.2 hmem
    simp only [List.count_append, List.count_singleton_self] at huniq
    omega
  rw [List.append_assoc, List.singleton_append]
  exact labelAt?_append this

/-! ### Runs of operand-free instructions -/

/-- Operand-free instructions one after the other; a return among them is not
    expected and counts as a failure of the machine. -/
def runSimple (m : State) : List Opcode → List Value → Except Fault (State × List Value)
  | [], st => .ok (m, st)
  | op :: ops, st =>
    match simple m st op with
    | .ok (.inl (m', st')) => runSimple m' ops st'
    | .ok (.inr _) => crash "return in a sequence"
    | .error e => .error e

theorem runSimple_cons {op : Opcode} {ops : List Opcode} {st st' : List Value} {m' : State}
    (h : simple m st op = .ok (.inl (m', st'))) : runSimple m (op :: ops) st = runSimple m' ops st' := by
  simp only [runSimple, h]

theorem runSimple_cons_error {op : Opcode} {ops : List Opcode} {st : List Value} {e : Fault}
    (h : simple m st op = .error e) : runSimple m (op :: ops) st = .error e := by
  simp only [runSimple, h]

/-! ### Constants, locals and jumps -/

theorem exec_immediate {op : Opcode} (hop : op ≠ .newarray) (v : Int32) :
    exec m f (.immediate op v) = .ok (.next m (f.push (.int v))) := by
  cases op <;> first | exact absurd rfl hop | rfl

theorem exec_ldc_int (v : Int32) : exec m f (.ldc (.int v)) = .ok (.next m (f.push (.int v))) := rfl

theorem exec_ldc_long (v : Int64) : exec m f (.ldc (.long v)) = .ok (.next m (f.push (.long v))) := rfl

/-- The loads of a local slot. -/
def IsLoad (op : Opcode) : Prop :=
  op = .iload ∨ op = .lload ∨ op = .fload ∨ op = .dload ∨ op = .aload

theorem exec_load {op : Opcode} (hop : IsLoad op) {i : Nat} {v : Value} (h : f.locals[i]? = some v) :
    exec m f (.slot op i) = .ok (.next m (f.push v)) := by
  rcases hop with rfl | rfl | rfl | rfl | rfl <;> simp [exec, h]

theorem isLoad_loadFor (k : Kind) : IsLoad (Opcode.loadFor k) := by
  cases k <;> simp [Opcode.loadFor, IsLoad]

theorem not_isLoad_storeFor (k : Kind) : ¬ IsLoad (Opcode.storeFor k) := by
  cases k <;> simp [Opcode.storeFor, IsLoad]

/-- A store into a slot of the frame. -/
theorem exec_store {op : Opcode} (hop : ¬ IsLoad op) {i : Nat} {v : Value} {st : List Value}
    (hpop : Stack.pop f.stack = .ok (v, st)) (hi : i < f.locals.size) :
    exec m f (.slot op i) = .ok (.next m { f with stack := st, locals := f.locals.set! i v }) := by
  simp only [IsLoad, not_or] at hop
  obtain ⟨h₁, h₂, h₃, h₄, h₅⟩ := hop
  cases op <;> first
    | exact absurd rfl h₁ | exact absurd rfl h₂ | exact absurd rfl h₃ | exact absurd rfl h₄
    | exact absurd rfl h₅ | simp [exec, hpop, hi, bind, Except.bind, pure, Except.pure]

/-- A jump that is taken goes to its label. -/
theorem exec_jump_taken {op : Opcode} {l q : Nat} {st : List Value}
    (hb : branch op f.stack = .ok (true, st)) (hl : labelAt? l f.code.instructions.toList = some q) :
    exec m f (.jump op l) = .ok (.next m { f with stack := st, pc := q }) := by
  simp [exec, hb, hl, bind, Except.bind, pure, Except.pure]

theorem exec_jump_not_taken {op : Opcode} {l : Nat} {st : List Value}
    (hb : branch op f.stack = .ok (false, st)) :
    exec m f (.jump op l) = .ok (.next m { f with stack := st }) := by
  simp [exec, hb, bind, Except.bind, pure, Except.pure]

section Branch

variable {st : List Value}

theorem branch_goto : branch .goto st = .ok (true, st) := rfl

/-- The jumps on one int. -/
def IsIntTest (op : Opcode) : Prop :=
  op = .ifeq ∨ op = .ifne ∨ op = .iflt ∨ op = .ifge ∨ op = .ifgt ∨ op = .ifle

theorem branch_int_test {op : Opcode} (hop : IsIntTest op) (v : Int32) :
    branch op (.int v :: st) = .ok (intTest op v, st) := by
  rcases hop with rfl | rfl | rfl | rfl | rfl | rfl <;> rfl

/-- The jumps on two ints. -/
def IsIntCompare (op : Opcode) : Prop :=
  op = .ifIcmpeq ∨ op = .ifIcmpne ∨ op = .ifIcmplt ∨ op = .ifIcmpge ∨ op = .ifIcmpgt ∨
    op = .ifIcmple

theorem branch_int_compare {op : Opcode} (hop : IsIntCompare op) (a b : Int32) :
    branch op (.int b :: .int a :: st) = .ok (intCompare op a b, st) := by
  rcases hop with rfl | rfl | rfl | rfl | rfl | rfl <;> rfl

end Branch

/-- A run of operand-free instructions takes one step each. -/
theorem Moves.simples {ops : List Opcode} {cs : List Frame} {m' : State} {st : List Value}
    (hcode : CodeAt f.code.instructions.toList f.pc (ops.map .simple))
    (hrun : runSimple m ops f.stack = .ok (m', st)) :
    Moves m (f :: cs) ops.length m' ({ f with pc := f.pc + ops.length, stack := st } :: cs) := by
  induction ops generalizing m f with
  | nil =>
    obtain ⟨rfl, rfl⟩ : m = m' ∧ f.stack = st := by
      simp only [runSimple, Except.ok.injEq, Prod.mk.injEq] at hrun
      exact hrun
    exact Moves.refl _ _
  | cons op ops ih =>
    simp only [runSimple] at hrun
    split at hrun
    · rename_i m₁ st₁ hop
      have hstep : Moves m (f :: cs) 1 m₁ ({ f with pc := f.pc + 1, stack := st₁ } :: cs) :=
        Moves.of_exec (by simpa using hcode.getElem?) (exec_simple (f := { f with pc := f.pc + 1 }) hop)
      have hrest := ih (m := m₁) (f := { f with pc := f.pc + 1, stack := st₁ }) hcode.tail hrun
      have := hstep.trans hrest
      simp only [List.length_cons, Nat.add_comm 1 ops.length, Nat.add_assoc] at this ⊢
      simpa [Nat.add_comm 1 ops.length] using this
    · cases hrun
    · cases hrun

/-- A run of operand-free instructions that stops with an error stops the
    machine with it. -/
theorem Fails.simples {ops : List Opcode} {cs : List Frame} {msg : String}
    (hcode : CodeAt f.code.instructions.toList f.pc (ops.map .simple))
    (hrun : runSimple m ops f.stack = fail msg) : ∃ k, Fails m (f :: cs) k msg := by
  induction ops generalizing m f with
  | nil => cases hrun
  | cons op ops ih =>
    have hi : f.code.instructions[f.pc]? = some (.simple op) := by simpa using hcode.getElem?
    simp only [runSimple] at hrun
    split at hrun
    · rename_i m₁ st₁ hop
      have hstep : Moves m (f :: cs) 1 m₁ ({ f with pc := f.pc + 1, stack := st₁ } :: cs) :=
        Moves.of_exec hi (exec_simple (f := { f with pc := f.pc + 1 }) hop)
      obtain ⟨k, hk⟩ := ih (m := m₁) (f := { f with pc := f.pc + 1, stack := st₁ }) hcode.tail hrun
      exact ⟨1 + k, hstep.fails hk⟩
    · cases hrun
    · rename_i e hop
      cases hrun
      exact ⟨1, Fails.of_exec hi (exec_simple_error (f := { f with pc := f.pc + 1 }) hop)⟩

/-- A label only moves on. -/
theorem Moves.label {l : Nat} {cs : List Frame} (hi : f.code.instructions[f.pc]? = some (.label l)) :
    Moves m (f :: cs) 1 m ({ f with pc := f.pc + 1 } :: cs) :=
  Moves.of_exec hi (exec_label l)

/-- A line marker only moves on. -/
theorem Moves.line {l : Nat} {cs : List Frame} (hi : f.code.instructions[f.pc]? = some (.line l)) :
    Moves m (f :: cs) 1 m ({ f with pc := f.pc + 1 } :: cs) :=
  Moves.of_exec hi (exec_line l)

/-- A jump that is taken goes to where its label stands. -/
theorem Moves.jump_taken {op : Opcode} {l q : Nat} {st : List Value} {cs : List Frame}
    (hi : f.code.instructions[f.pc]? = some (.jump op l)) (hb : branch op f.stack = .ok (true, st))
    (hq : CodeAt f.code.instructions.toList q [.label l]) (hlab : LabelsOnce f.code) :
    Moves m (f :: cs) 1 m ({ f with pc := q, stack := st } :: cs) :=
  Moves.of_exec hi (exec_jump_taken hb (labelAt?_of_codeAt hq (hlab l)))

theorem Moves.jump_not_taken {op : Opcode} {l : Nat} {st : List Value} {cs : List Frame}
    (hi : f.code.instructions[f.pc]? = some (.jump op l)) (hb : branch op f.stack = .ok (false, st)) :
    Moves m (f :: cs) 1 m ({ f with pc := f.pc + 1, stack := st } :: cs) :=
  Moves.of_exec hi (exec_jump_not_taken hb)

/-- The last entries of a comparison: the jump decides whether 1 or 0 is
    pushed, and both ways meet after the last label, four steps on. -/
theorem Moves.select {l : Nat} {jump : Opcode} {b : Bool} {st : List Value} {cs : List Frame}
    (hcode : CodeAt f.code.instructions.toList f.pc
      [.jump jump l, .simple .iconst0, .jump .goto (l + 1), .label l, .simple .iconst1, .label (l + 1)])
    (hlab : LabelsOnce f.code) (hb : branch jump f.stack = .ok (b, st)) :
    Moves m (f :: cs) 4 m ({ f with pc := f.pc + 6, stack := .int (if b then 1 else 0) :: st } :: cs) := by
  have h₁ := hcode.tail
  have h₂ := h₁.tail
  have h₃ := h₂.tail
  have h₄ := h₃.tail
  have h₅ := h₄.tail
  have hl : labelAt? l f.code.instructions.toList = some (f.pc + 3) :=
    labelAt?_of_codeAt h₃.head (hlab l)
  have hl' : labelAt? (l + 1) f.code.instructions.toList = some (f.pc + 5) :=
    labelAt?_of_codeAt h₅ (hlab (l + 1))
  cases b with
  | true =>
    -- taken: to the label, then 1 is pushed
    have m₁ : Moves m (f :: cs) 1 m ({ f with pc := f.pc + 3, stack := st } :: cs) :=
      Moves.of_exec hcode.fetch (exec_jump_taken hb hl)
    have m₂ : Moves m ({ f with pc := f.pc + 3, stack := st } :: cs) 1 m
        ({ f with pc := f.pc + 4, stack := st } :: cs) :=
      Moves.of_exec (CodeAt.fetch (f := { f with pc := f.pc + 3, stack := st }) h₃) (exec_label l)
    have m₃ : Moves m ({ f with pc := f.pc + 4, stack := st } :: cs) 1 m
        ({ f with pc := f.pc + 5, stack := .int 1 :: st } :: cs) :=
      Moves.of_exec (CodeAt.fetch (f := { f with pc := f.pc + 4, stack := st }) h₄) (exec_simple rfl)
    have m₄ : Moves m ({ f with pc := f.pc + 5, stack := .int 1 :: st } :: cs) 1 m
        ({ f with pc := f.pc + 6, stack := .int 1 :: st } :: cs) :=
      Moves.of_exec (CodeAt.fetch (f := { f with pc := f.pc + 5, stack := .int 1 :: st }) h₅)
        (exec_label (l + 1))
    exact ((m₁.trans m₂).trans m₃).trans m₄
  | false =>
    -- not taken: 0 is pushed, then to the last label
    have m₁ : Moves m (f :: cs) 1 m ({ f with pc := f.pc + 1, stack := st } :: cs) :=
      Moves.of_exec hcode.fetch (exec_jump_not_taken hb)
    have m₂ : Moves m ({ f with pc := f.pc + 1, stack := st } :: cs) 1 m
        ({ f with pc := f.pc + 2, stack := .int 0 :: st } :: cs) :=
      Moves.of_exec (CodeAt.fetch (f := { f with pc := f.pc + 1, stack := st }) h₁) (exec_simple rfl)
    have m₃ : Moves m ({ f with pc := f.pc + 2, stack := .int 0 :: st } :: cs) 1 m
        ({ f with pc := f.pc + 5, stack := .int 0 :: st } :: cs) :=
      Moves.of_exec (CodeAt.fetch (f := { f with pc := f.pc + 2, stack := .int 0 :: st }) h₂)
        (exec_jump_taken branch_goto hl')
    have m₄ : Moves m ({ f with pc := f.pc + 5, stack := .int 0 :: st } :: cs) 1 m
        ({ f with pc := f.pc + 6, stack := .int 0 :: st } :: cs) :=
      Moves.of_exec (CodeAt.fetch (f := { f with pc := f.pc + 5, stack := .int 0 :: st }) h₅)
        (exec_label (l + 1))
    exact ((m₁.trans m₂).trans m₃).trans m₄

end ClassCompiler.Machine
