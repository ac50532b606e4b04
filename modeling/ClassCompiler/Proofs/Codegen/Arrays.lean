import ClassCompiler.Proofs.Codegen.Pieces
import Mathlib

/-!
# Array initializers

An array initializer `[T](e₁, …, eₙ)` compiles to the code of its elements,
left to right, then to `fillCode T n`: the length, the allocation, and one
five-instruction store per index, from the last down, each taking the value
that lies right below the array (`DUP_X1 SWAP i SWAP xASTORE`, or with
`DUP_X2 i DUP2_X2 POP2` for a two-word element).

* `Value.OfType t v`: the values a type holds on the machine; the narrow
  integer types hold ints in their range;
* `simple_arrayStoreFor`: a store of a value of the element type writes it
  unchanged, the narrow stores' cut included;
* `Moves.storeElement`, the step: one store puts the value below the array at
  its index and leaves the array on top of what lay below the value;
* `Moves.storeElements`, the run, by induction on the values from the last:
  the stores put the values, in order, at the front of the array;
* `Moves.fillCode`: the length, the allocation and the stores leave a fresh
  array of the values on top of what lay below them;
* `Gen.fillArray_ok`, `Gen.expr_array_ok`: what the code generator emits for
  an initializer;
* `array_initializer_builds_array`: together, for every initializer the code
  generator accepts.
-/

namespace ClassCompiler

namespace Machine

/-- The values of a type as the machine holds them: the narrow integer
    types hold ints in their range, and a reference type `null` or a
    reference. -/
inductive Value.OfType : Ty → Value → Prop
  | int (w : Int32) : OfType .int (.int w)
  | bool (w : Int32) (h : w = 0 ∨ w = 1) : OfType .bool (.int w)
  | byte (w : Int32) (h : -128 ≤ w.toInt ∧ w.toInt ≤ 127) : OfType .byte (.int w)
  | char (w : Int32) (h : 0 ≤ w.toInt ∧ w.toInt ≤ 65535) : OfType .char (.int w)
  | short (w : Int32) (h : -32768 ≤ w.toInt ∧ w.toInt ≤ 32767) : OfType .short (.int w)
  | long (w : Int64) : OfType .long (.long w)
  | float (b : UInt32) : OfType .float (.float b)
  | double (b : UInt64) : OfType .double (.double b)
  | null {t : Ty} (h : t.isReference = true) : OfType t .null
  | ref {t : Ty} (id : Nat) (h : t.isReference = true) : OfType t (.ref id)

/-- Values pushed one after the other: the last one ends on top. -/
def Stack.pushAll (vs st : List Value) : List Value := vs.foldl (fun st v => Stack.push v st) st

@[simp] theorem Stack.pushAll_nil (st : List Value) : Stack.pushAll [] st = st := rfl

theorem Stack.pushAll_concat (vs : List Value) (v : Value) (st : List Value) :
    Stack.pushAll (vs ++ [v]) st = Stack.push v (Stack.pushAll vs st) := by
  simp [Stack.pushAll]

/-- Storing into a heap entry what it already holds changes nothing. -/
theorem heap_set_self {h : Array Object} {a : Nat} {o : Object} (ha : h[a]? = some o) : h.set! a o = h := by
  obtain ⟨hlt, rfl⟩ := Array.getElem?_eq_some_iff.1 ha
  rw [Array.set!_eq_setIfInBounds, Array.setIfInBounds_def, dif_pos hlt, Array.set_getElem_self]

variable {m : State} {st : List Value}

theorem Stack.shuffle_ok {count : Nat} (order : List Nat) (h : count ≤ st.length) :
    Stack.shuffle count order st = .ok ((order.map fun i => st.getD i .top).reverse ++ st.drop count) := by
  simp [Stack.shuffle, Nat.not_lt.2 h]

theorem simple_dupX1 (x y : Value) : simple m (x :: y :: st) .dupX1 = .ok (.inl (m, x :: y :: x :: st)) := by
  unfold simple
  rw [Stack.shuffle_ok _ (by simp)]
  rfl

theorem simple_swap (x y : Value) : simple m (x :: y :: st) .swap = .ok (.inl (m, y :: x :: st)) := by
  unfold simple
  rw [Stack.shuffle_ok _ (by simp)]
  rfl

theorem simple_dupX2 (x y z : Value) :
    simple m (x :: y :: z :: st) .dupX2 = .ok (.inl (m, x :: y :: z :: x :: st)) := by
  unfold simple
  rw [Stack.shuffle_ok _ (by simp)]
  rfl

theorem simple_dup2X2 (x y z w : Value) :
    simple m (x :: y :: z :: w :: st) .dup2X2 = .ok (.inl (m, x :: y :: z :: w :: x :: y :: st)) := by
  unfold simple
  rw [Stack.shuffle_ok _ (by simp)]
  rfl

/-- A store at an index within the array. -/
theorem State.arrayStore_ok {a i : Nat} {items : Array Value} (v : Value)
    (hheap : m.heap[a]? = some (.array items)) (hi : i < items.size) (hi' : i < 2 ^ 31) :
    m.arrayStore (.ref a) (Int32.ofNat i) v = .ok { m with heap := m.heap.set! a (.array (items.set! i v)) } := by
  have hnn : ¬ Int32.ofNat i < 0 := by
    rw [Int32.lt_iff_toInt_lt, Int32.toInt_ofNat_of_lt hi']
    simp
  have hin : ¬ items.size ≤ i := Nat.not_le.2 hi
  simp [State.arrayStore, hheap, hnn, Int32.toNatClampNeg_ofNat_of_lt hi', hin]


/-! ### Narrow stores keep values of their type -/

theorem Int32.toInt8_toInt32_of_le {w : Int32} (h₁ : -128 ≤ w.toInt) (h₂ : w.toInt ≤ 127) :
    w.toInt8.toInt32 = w := by
  apply Int32.toInt_inj.1
  rw [Int8.toInt_toInt32, Int32.toInt_toInt8]
  exact Int.bmod_eq_of_le (by omega) (by omega)

theorem Int32.toInt16_toInt32_of_le {w : Int32} (h₁ : -32768 ≤ w.toInt) (h₂ : w.toInt ≤ 32767) :
    w.toInt16.toInt32 = w := by
  apply Int32.toInt_inj.1
  rw [Int16.toInt_toInt32, Int32.toInt_toInt16]
  exact Int.bmod_eq_of_le (by omega) (by omega)

theorem Int32.ofNat_toNat_mod_of_le {w : Int32} (h₁ : 0 ≤ w.toInt) (h₂ : w.toInt ≤ 65535) :
    Int32.ofNat (w.toBitVec.toNat % 65536) = w := by
  have hnn : 0 ≤ w := by
    rw [Int32.le_iff_toInt_le]
    simpa using h₁
  rw [Int32.toNat_toBitVec_of_le hnn]
  have : w.toNatClampNeg < 65536 := by
    simp only [Int32.toNatClampNeg]
    omega
  rw [Nat.mod_eq_of_lt this, Int32.ofNat_toNatClampNeg w hnn]

theorem Opcode.arrayStoreFor_of_isReference {t : Ty} (h : t.isReference = true) :
    Opcode.arrayStoreFor t = .aastore := by
  cases t <;> simp_all [Ty.isReference, Opcode.arrayStoreFor]

@[simp] theorem Stack.popInt_int (w : Int32) (st : List Value) : Stack.popInt (.int w :: st) = .ok (w, st) :=
  rfl

@[simp] theorem Stack.pop_ref (a : Nat) (st : List Value) : Stack.pop (.ref a :: st) = .ok (.ref a, st) :=
  rfl

theorem Value.OfType.ne_top {t : Ty} {v : Value} (hv : v.OfType t) : v ≠ .top := by
  cases hv <;> simp

/-- A value of the element type is stored as it is, wherever it stands in
    the array. -/
theorem simple_arrayStoreFor (st : List Value) {t : Ty} {v : Value} (hv : v.OfType t) {a i : Nat}
    {items : Array Value} (hheap : m.heap[a]? = some (.array items)) (hi : i < items.size) (hi' : i < 2 ^ 31) :
    simple m (Stack.push v (.int (Int32.ofNat i) :: .ref a :: st)) (Opcode.arrayStoreFor t) =
      .ok (.inl ({ m with heap := m.heap.set! a (.array (items.set! i v)) }, st)) := by
  have hstore := State.arrayStore_ok v hheap hi hi'
  have hpop := Stack.pop_push hv.ne_top (.int (Int32.ofNat i) :: .ref a :: st)
  -- the value is popped whole, then the index and the array; the narrow
  -- stores cut it to their width first, which keeps a value of the type
  cases hv with
  | null h | ref id h =>
    rw [Opcode.arrayStoreFor_of_isReference h]
    unfold simple
    simp [hpop, hstore, bind, Except.bind, pure, Except.pure]
  | int w | long w | float w | double w =>
    unfold simple
    simp [Opcode.arrayStoreFor, hpop, hstore, bind, Except.bind, pure, Except.pure]
  | bool w h =>
    have hw : w.toInt8.toInt32 = w := by rcases h with rfl | rfl <;> rfl
    unfold simple
    simp [Opcode.arrayStoreFor, hstore, bind, Except.bind, pure, Except.pure, Value.asInt,
      Except.map, hw]
  | byte w h =>
    have hw := Int32.toInt8_toInt32_of_le h.1 h.2
    unfold simple
    simp [Opcode.arrayStoreFor, hstore, bind, Except.bind, pure, Except.pure, Value.asInt,
      Except.map, hw]
  | char w h =>
    have hw := Int32.ofNat_toNat_mod_of_le h.1 h.2
    unfold simple
    simp [Opcode.arrayStoreFor, hstore, bind, Except.bind, pure, Except.pure, Value.asInt,
      Except.map, hw]
  | short w h =>
    have hw := Int32.toInt16_toInt32_of_le h.1 h.2
    unfold simple
    simp [Opcode.arrayStoreFor, hstore, bind, Except.bind, pure, Except.pure, Value.asInt,
      Except.map, hw]

/-- A value of a type takes two words exactly when the type does. -/
theorem Value.OfType.isWide_eq {t : Ty} {v : Value} (hv : v.OfType t) : v.isWide = (t.slotSize == 2) := by
  cases hv with
  | null h | ref id h =>
    cases t <;> simp_all [Ty.isReference, Value.isWide, Ty.slotSize, Ty.kind, Kind.size]
  | _ => rfl


end Machine

open Machine

/-- The instruction that allocates an array of `elem` whose length is on the stack. -/
def newArrayInstr (elem : Ty) : Instruction :=
  match Opcode.newarrayCode? elem with
  | some code => .immediate .newarray (Int32.ofNat code)
  | none => .classRef .anewarray (elem.classOperand?.getD objectClass)

/-- The code that stores the element at index `i`, which lies right below the
    array: `DUP_X1 SWAP i SWAP xASTORE`, or for a two-word element
    `DUP_X2 i DUP2_X2 POP2 xASTORE`. -/
def storeElementCode (elem : Ty) (i : Nat) : List Instruction :=
  if elem.slotSize == 2 then
    [.simple .dupX2, intConst (Int32.ofNat i), .simple .dup2X2, .simple .pop2,
      .simple (Opcode.arrayStoreFor elem)]
  else
    [.simple .dupX1, .simple .swap, intConst (Int32.ofNat i), .simple .swap,
      .simple (Opcode.arrayStoreFor elem)]

/-- The code that makes an array of the `count` values on the stack: the
    length, the allocation, then the stores from the last index down. -/
def fillCode (elem : Ty) (count : Nat) : List Instruction :=
  intConst (Int32.ofNat count) :: newArrayInstr elem ::
    (List.range count).reverse.flatMap (storeElementCode elem)

namespace Machine

variable {m : State} {f : Frame} {cs : List Frame}

theorem Moves.intConst {v : Int32} (hcode : CodeAt f.code.instructions.toList f.pc [intConst v]) :
    Moves m (f :: cs) 1 m ({ f with pc := f.pc + 1, stack := .int v :: f.stack } :: cs) :=
  Moves.of_exec hcode.fetch (exec_intConst v)

/-- One store: the value below the array goes to index `i`, and the array
    stays on top of what lay below the value. -/
theorem Moves.storeElement {t : Ty} {v : Value} (hv : v.OfType t) {a i : Nat} {items : Array Value}
    {rest : List Value} (hcode : CodeAt f.code.instructions.toList f.pc (storeElementCode t i))
    (hheap : m.heap[a]? = some (.array items)) (hi : i < items.size) (hi' : i < 2 ^ 31)
    (hstack : f.stack = .ref a :: Stack.push v rest) :
    Moves m (f :: cs) 5 { m with heap := m.heap.set! a (.array (items.set! i v)) }
      ({ f with pc := f.pc + 5, stack := .ref a :: rest } :: cs) := by
  have hstore := simple_arrayStoreFor (.ref a :: rest) hv hheap hi hi'
  unfold storeElementCode at hcode
  have hpush : ∀ s, Stack.push v s = if t.slotSize == 2 then .top :: v :: s else v :: s := by
    simp only [Stack.push, hv.isWide_eq, implies_true]
  split at hcode
  · -- two words: `DUP_X2 i DUP2_X2 POP2 xASTORE`
    rename_i hw
    rw [hpush, if_pos hw] at hstack
    rw [hpush, if_pos hw] at hstore
    have hdup : CodeAt f.code.instructions.toList f.pc ([Opcode.dupX2].map .simple) := hcode.head
    have m₁ : Moves m (f :: cs) 1 m
        ({ f with pc := f.pc + 1, stack := .ref a :: .top :: v :: .ref a :: rest } :: cs) :=
      Moves.simples hdup (by rw [hstack]; simp [runSimple, simple_dupX2])
    have m₂ : Moves m ({ f with pc := f.pc + 1, stack := .ref a :: .top :: v :: .ref a :: rest } :: cs) 1 m
        ({ f with
            pc := f.pc + 1 + 1
            stack := .int (Int32.ofNat i) :: .ref a :: .top :: v :: .ref a :: rest } :: cs) :=
      Moves.intConst hcode.tail.head
    have hput : CodeAt f.code.instructions.toList (f.pc + 1 + 1)
        ([Opcode.dup2X2, .pop2, Opcode.arrayStoreFor t].map .simple) := hcode.tail.tail
    have m₃ : Moves _ (_ :: cs) _ _ _ := Moves.simples
      (f := { f with
        pc := f.pc + 1 + 1
        stack := .int (Int32.ofNat i) :: .ref a :: .top :: v :: .ref a :: rest }) hput
      (by rw [runSimple_cons (simple_dup2X2 _ _ _ _), runSimple_cons (simple_pop2 _ _),
        runSimple_cons hstore]; rfl)
    exact (m₁.trans m₂).trans m₃
  · -- one word: `DUP_X1 SWAP i SWAP xASTORE`
    rename_i hw
    rw [hpush, if_neg hw] at hstack
    rw [hpush, if_neg hw] at hstore
    have hsplit : CodeAt f.code.instructions.toList f.pc ([Opcode.dupX1, .swap].map .simple ++
        [ClassCompiler.intConst (Int32.ofNat i), .simple .swap, .simple (Opcode.arrayStoreFor t)]) := hcode
    have m₁ : Moves m (f :: cs) 2 m ({ f with pc := f.pc + 2, stack := v :: .ref a :: .ref a :: rest } :: cs) :=
      Moves.simples hsplit.app_left
        (by rw [hstack, runSimple_cons (simple_dupX1 _ _), runSimple_cons (simple_swap _ _)]; rfl)
    have h₂ := hsplit.app_right
    have m₂ : Moves m ({ f with pc := f.pc + 2, stack := v :: .ref a :: .ref a :: rest } :: cs) 1 m
        ({ f with pc := f.pc + 2 + 1, stack := .int (Int32.ofNat i) :: v :: .ref a :: .ref a :: rest } :: cs) :=
      Moves.intConst h₂.head
    have hput : CodeAt f.code.instructions.toList (f.pc + 2 + 1)
        ([Opcode.swap, Opcode.arrayStoreFor t].map .simple) := h₂.tail
    have m₃ : Moves _ (_ :: cs) _ _ _ := Moves.simples
      (f := { f with pc := f.pc + 2 + 1, stack := .int (Int32.ofNat i) :: v :: .ref a :: .ref a :: rest }) hput
      (by rw [runSimple_cons (simple_swap _ _), runSimple_cons hstore]; rfl)
    exact (m₁.trans m₂).trans m₃


theorem storeElementCode_length (t : Ty) (i : Nat) : (storeElementCode t i).length = 5 := by
  unfold storeElementCode
  split <;> rfl

/-- The stores from index `pre.length - 1` down to `0` put the values `pre`,
    which lie below the array in order, at the front of the array. -/
theorem Moves.storeElements {t : Ty} {a : Nat} {rest : List Value} (pre : List Value) :
    ∀ (m : State) (f : Frame) (items : Array Value),
      (∀ v ∈ pre, v.OfType t) → pre.length ≤ items.size → items.size < 2 ^ 31 →
      m.heap[a]? = some (.array items) →
      CodeAt f.code.instructions.toList f.pc ((List.range pre.length).reverse.flatMap (storeElementCode t)) →
      f.stack = .ref a :: Stack.pushAll pre rest →
      Moves m (f :: cs) (5 * pre.length)
        { m with heap := m.heap.set! a (.array (pre ++ items.toList.drop pre.length).toArray) }
        ({ f with pc := f.pc + 5 * pre.length, stack := .ref a :: rest } :: cs) := by
  induction pre using List.reverseRecOn with
  | nil =>
    intro m f items _ _ _ hheap _ hstack
    have hm : { m with heap := m.heap.set! a (.array ([] ++ items.toList.drop 0).toArray) } = m := by
      rw [List.nil_append, List.drop_zero, Array.toArray_toList, heap_set_self hheap]
    have hf : { f with pc := f.pc + 5 * 0, stack := .ref a :: rest } = f := by
      rw [Nat.mul_zero, Nat.add_zero, show Value.ref a :: rest = f.stack from hstack.symm]
    simp only [List.length_nil]
    rw [hm, hf]
    exact Moves.refl _ _
  | append_singleton pre v ih =>
    intro m f items hvs hlen hsize hheap hcode hstack
    -- the last value is stored first, at index `pre.length`
    have hi : pre.length < items.size := by simp at hlen; omega
    have hcode' : CodeAt f.code.instructions.toList f.pc
        (storeElementCode t pre.length ++ (List.range pre.length).reverse.flatMap (storeElementCode t)) := by
      simpa [List.range_succ] using hcode
    have hstack' : f.stack = .ref a :: Stack.push v (Stack.pushAll pre rest) := by
      rw [hstack, Stack.pushAll_concat]
    have m₁ : Moves m (f :: cs) 5 _ _ :=
      Moves.storeElement (hvs v (by simp)) hcode'.app_left hheap hi (by omega) hstack'
    have hheap₁ : (m.heap.set! a (.array (items.set! pre.length v)))[a]? =
        some (.array (items.set! pre.length v)) := by
      have : a < m.heap.size := (Array.getElem?_eq_some_iff.1 hheap).1
      simp [this]
    have m₂ := ih { m with heap := m.heap.set! a (.array (items.set! pre.length v)) }
      { f with pc := f.pc + 5, stack := .ref a :: Stack.pushAll pre rest } (items.set! pre.length v)
      (fun w hw => hvs w (by simp [hw])) (by simp; omega) (by simpa using hsize) hheap₁
      (by simpa [storeElementCode_length] using hcode'.app_right) rfl
    have hitems : pre ++ (items.set! pre.length v).toList.drop pre.length =
        pre ++ [v] ++ items.toList.drop (pre ++ [v]).length := by
      simp [List.drop_set, List.drop_eq_getElem_cons (show pre.length < items.toList.length by simpa using hi)]
    have hcount : 5 * (pre ++ [v]).length = 5 + 5 * pre.length := by simp; omega
    rw [hcount, ← hitems]
    convert m₁.trans m₂ using 2
    · simp [Array.setIfInBounds_setIfInBounds]
    · simp; omega


/-- A length that fits an int is popped as itself. -/
theorem Stack.popLen_ofNat {n : Nat} (hn : n < 2 ^ 31) (st : List Value) :
    Stack.popLen (.int (Int32.ofNat n) :: st) = .ok (n, st) := by
  have hnn : ¬ Int32.ofNat n < 0 := by
    rw [Int32.lt_iff_toInt_lt, Int32.toInt_ofNat_of_lt hn]
    simp
  simp [Stack.popLen, Stack.popInt, Stack.pop, Stack.rawPop, Value.asInt, hnn,
    Int32.toNatClampNeg_ofNat_of_lt hn, bind, Except.bind, pure, Except.pure]

/-- The allocation takes the length off the stack and pushes a fresh array
    of that length. -/
theorem Moves.newArray {t : Ty} {n : Nat} (hn : n < 2 ^ 31) {rest : List Value}
    (hcode : CodeAt f.code.instructions.toList f.pc [newArrayInstr t])
    (hstack : f.stack = .int (Int32.ofNat n) :: rest) :
    ∃ d, Moves m (f :: cs) 1 { m with heap := m.heap.push (.array (Array.replicate n d)) }
      ({ f with pc := f.pc + 1, stack := .ref m.heap.size :: rest } :: cs) := by
  unfold newArrayInstr at hcode
  split at hcode
  · rename_i code _
    refine ⟨newarrayDefault (Int32.ofNat code), Moves.of_exec hcode.fetch ?_⟩
    simp [exec, hstack, Stack.popLen_ofNat hn, State.alloc, Frame.push, Stack.push, Value.isWide,
      bind, Except.bind, pure, Except.pure]
  · refine ⟨.null, Moves.of_exec hcode.fetch ?_⟩
    simp [exec, typeOp, hstack, Stack.popLen_ofNat hn, State.alloc, Stack.push, Value.isWide,
      bind, Except.bind, pure, Except.pure]

/-- The code after the elements makes the array of the values they left,
    fresh, on top of what lay below them. -/
theorem Moves.fillCode {t : Ty} {vs rest : List Value} (hvs : ∀ v ∈ vs, v.OfType t)
    (hn : vs.length < 2 ^ 31) (hcode : CodeAt f.code.instructions.toList f.pc (fillCode t vs.length))
    (hstack : f.stack = Stack.pushAll vs rest) :
    Moves m (f :: cs) (2 + 5 * vs.length) { m with heap := m.heap.push (.array vs.toArray) }
      ({ f with pc := f.pc + (2 + 5 * vs.length), stack := .ref m.heap.size :: rest } :: cs) := by
  have m₁ : Moves m (f :: cs) 1 m
      ({ f with pc := f.pc + 1, stack := .int (Int32.ofNat vs.length) :: f.stack } :: cs) :=
    Moves.intConst hcode.head
  obtain ⟨d, m₂⟩ : ∃ d, Moves m ({ f with pc := f.pc + 1, stack := .int (Int32.ofNat vs.length) :: f.stack } :: cs) 1
      { m with heap := m.heap.push (.array (Array.replicate vs.length d)) }
      ({ f with pc := f.pc + 1 + 1, stack := .ref m.heap.size :: Stack.pushAll vs rest } :: cs) :=
    Moves.newArray (t := t) hn hcode.tail.head (by simp only [hstack])
  have hheap : ({ m with heap := m.heap.push (.array (Array.replicate vs.length d)) } : State).heap[m.heap.size]? =
      some (.array (Array.replicate vs.length d)) := Array.getElem?_push_size
  have m₃ : Moves _ (_ :: cs) _ _ _ := Moves.storeElements (t := t) (a := m.heap.size) vs
    { m with heap := m.heap.push (.array (Array.replicate vs.length d)) }
    { f with pc := f.pc + 1 + 1, stack := .ref m.heap.size :: Stack.pushAll vs rest }
    (Array.replicate vs.length d) hvs (by simp) (by simpa using hn) hheap hcode.tail.tail rfl
  have hfinal : (m.heap.push (.array (Array.replicate vs.length d))).set! m.heap.size
      (.array (vs ++ (Array.replicate vs.length d).toList.drop vs.length).toArray) =
      m.heap.push (.array vs.toArray) := by
    rw [Array.set!_eq_setIfInBounds, Array.push_eq_append, Array.setIfInBounds_append_right (Nat.le_refl _)]
    simp
  convert (m₁.trans m₂).trans m₃ using 2
  · simp only [hfinal]
  · simp; omega

end Machine


theorem Emitter.newArray_eq (e : Emitter) (elem : Ty) : e.newArray elem = e.push (newArrayInstr elem) := by
  unfold Emitter.newArray newArrayInstr
  cases Opcode.newarrayCode? elem <;> rfl

/-- Emitting, for each index of a list, code that depends on it. -/
theorem Emitter.foldl_push_code (g : Emitter → Nat → Emitter) (code : Nat → List Instruction)
    (hg : ∀ e i, g e i = { e with code := e.code ++ (code i).toArray }) :
    ∀ (l : List Nat) (e : Emitter), l.foldl g e = { e with code := e.code ++ (l.flatMap code).toArray }
  | [], e => by simp
  | i :: l, e => by
    rw [List.foldl_cons, Emitter.foldl_push_code g code hg l, hg]
    simp [Array.append_assoc]

namespace Gen

variable {c : MethodContext} {s s' : GenState} {t : Ty}

theorem fillArray_ok {elem : Ty} {count : Nat} {sp : Span} :
    fillArray elem count sp c s = .ok (t, s') ↔ count ≤ 2147483647 ∧ t = .array elem ∧
      s' = { s with emitter := { s.emitter with code := s.emitter.code ++ (fillCode elem count).toArray } } := by
  unfold fillArray
  by_cases hc : count > 2147483647
  · rw [if_pos hc]
    simp only [bind_ok]
    constructor
    · rintro ⟨_, _, hf, -⟩
      exact absurd hf fail_ne
    · rintro ⟨h, -⟩
      omega
  rw [if_neg hc]
  -- each store appends its five instructions
  have hstore : ∀ (e : Emitter) (i : Nat),
      (if (elem.slotSize == 2) = true then
          (((e.emit .dupX2).emitInt (Int32.ofNat i)).emit .dup2X2).emit .pop2
        else (((e.emit .dupX1).emit .swap).emitInt (Int32.ofNat i)).emit .swap).emit
          (Opcode.arrayStoreFor elem) =
        { e with code := e.code ++ (storeElementCode elem i).toArray } := by
    intro e i
    unfold storeElementCode
    split <;> simp [Emitter.emit_eq, Emitter.emitInt_eq, Emitter.push, ← Array.toList_inj]
  simp only [bind_ok, out_ok, pure_ok, Emitter.foldl_push_code _ _ hstore]
  simp [Emitter.emitInt_eq, Emitter.newArray_eq, Emitter.push, fillCode, Nat.le_of_not_gt hc]

open Syntax in
theorem expr_array_ok {ty : TypeExpr} {elems : List Expr} {sp : Span}
    (h : expr (.array ty elems sp) c s = .ok (t, s')) :
    ∃ elem s₁, c.resolveKnown ty = .ok elem ∧ elem.isVoid = false ∧
      elements elem elems c s = .ok ((), s₁) ∧ fillArray elem elems.length sp c s₁ = .ok (t, s') := by
  rw [expr] at h
  simp only [bind_ok, resolveKnown_ok] at h
  obtain ⟨elem, _, ⟨hty, rfl⟩, h⟩ := h
  -- void elements are refused before any code
  by_cases hv : elem.isVoid = true
  · rw [if_pos hv, bind_ok] at h
    obtain ⟨_, _, hm, -⟩ := h
    exact absurd hm mismatch_ne
  rw [if_neg hv, bind_ok] at h
  obtain ⟨_, s₁, he, hf⟩ := h
  exact ⟨elem, s₁, hty, by simpa using hv, he, hf⟩

/-- The elements are compiled one after the other, each to a value of a type
    the element type accepts. -/
theorem elements_cons_ok {elem : Ty} {a : Syntax.Expr} {rest : List Syntax.Expr} {u : Unit}
    (h : elements elem (a :: rest) c s = .ok (u, s')) :
    ∃ v s₁, expr a c s = .ok (v, s₁) ∧ v ≠ .void ∧ v.isTypeRef = false ∧ elem.accepts v = true ∧
      elements elem rest c s₁ = .ok ((), s') := by
  rw [elements] at h
  simp only [bind_ok, requireValue_ok] at h
  obtain ⟨_, _, ha, v, s₁, ⟨rfl, rfl, hvv, hvr⟩, h⟩ := h
  by_cases hacc : elem.accepts v = true
  · rw [if_pos hacc] at h
    exact ⟨v, s₁, ha, hvv, hvr, hacc, h⟩
  · rw [if_neg hacc, bind_ok] at h
    obtain ⟨_, _, hm, -⟩ := h
    exact absurd hm mismatch_ne

end Gen

theorem length_flatMap_storeElementCode (elem : Ty) (l : List Nat) :
    (l.flatMap (storeElementCode elem)).length = 5 * l.length := by
  induction l with
  | nil => rfl
  | cons i l ih =>
    simp only [List.flatMap_cons, List.length_append, storeElementCode_length, ih, List.length_cons]
    omega

theorem length_fillCode (elem : Ty) (count : Nat) : (fillCode elem count).length = 2 + 5 * count := by
  simp only [fillCode, List.length_cons, length_flatMap_storeElementCode, List.length_reverse,
    List.length_range]
  omega

open Machine in
/-- An array initializer compiles to the code of its elements, left to right,
    then the code that builds the array of their values: run from the end of
    the elements' code with their values on the stack, it leaves a fresh
    array of those values in order on top of what lay below them. -/
theorem array_initializer_builds_array {c : MethodContext} {s s' : GenState} {t : Ty}
    {ty : Syntax.TypeExpr} {elems : List Syntax.Expr} {sp : Span}
    (h : Gen.expr (.array ty elems sp) c s = .ok (t, s')) :
    ∃ elem s₁, t = .array elem ∧ elem ≠ .void ∧ Gen.elements elem elems c s = .ok ((), s₁) ∧
      s.emitter.code.toList <+: s₁.emitter.code.toList ∧
      s'.emitter.code.toList = s₁.emitter.code.toList ++ fillCode elem elems.length ∧
      ∀ (m : State) (f : Frame) (cs : List Frame) (vs rest : List Value),
        s'.emitter.code.toList <+: f.code.instructions.toList → f.pc = s₁.emitter.code.size →
        vs.length = elems.length → (∀ v ∈ vs, v.OfType elem) → f.stack = Stack.pushAll vs rest →
        Moves m (f :: cs) (2 + 5 * elems.length) { m with heap := m.heap.push (.array vs.toArray) }
          ({ f with pc := s'.emitter.code.size, stack := .ref m.heap.size :: rest } :: cs) := by
  obtain ⟨elem, s₁, -, hvoid, helems, hfill⟩ := Gen.expr_array_ok h
  obtain ⟨hn, rfl, rfl⟩ := Gen.fillArray_ok.1 hfill
  have hcode : ({ s₁ with emitter := { s₁.emitter with
        code := s₁.emitter.code ++ (fillCode elem elems.length).toArray } } : GenState).emitter.code.toList =
      s₁.emitter.code.toList ++ fillCode elem elems.length := by simp
  refine ⟨elem, s₁, rfl, by cases elem <;> simp_all [Ty.isVoid], helems,
    (Gen.elements_confined elem elems c s () s₁ helems).prefix_, hcode, ?_⟩
  intro m f cs vs rest hprefix hpc hlen hvs hstack
  have hat : CodeAt f.code.instructions.toList f.pc (fillCode elem vs.length) := by
    rw [hpc, hlen]
    exact CodeAt.of_append (by rw [← hcode]; exact hprefix)
  have hmoves : Moves m (f :: cs) _ _ _ := Moves.fillCode hvs (by omega) hat hstack
  rw [hlen] at hmoves
  convert hmoves using 4
  simp [hpc, length_fillCode]

/-- `[long](1L, 2L)` in a static method of an empty program. -/
theorem array_initializer_builds_array_sample : ∃ (t : Ty) (s' : GenState) (elem : Ty) (s₁ : GenState),
    Gen.expr (.array ⟨⟨[⟨"long", ⟨1, 2, 4⟩⟩], ⟨1, 2, 4⟩⟩, 0, ⟨1, 2, 4⟩⟩
      [.lit (.long 1) ⟨1, 8, 2⟩, .lit (.long 2) ⟨1, 12, 2⟩] ⟨1, 1, 14⟩)
      ⟨default, {}, .standard, default, .staticMethod "main" [] .void, none⟩ default = .ok (t, s') ∧
    t = .array elem ∧ s'.emitter.code.toList = s₁.emitter.code.toList ++ fillCode elem 2 := by
  obtain ⟨⟨t, s'⟩, h⟩ : ∃ p, Gen.expr (.array ⟨⟨[⟨"long", ⟨1, 2, 4⟩⟩], ⟨1, 2, 4⟩⟩, 0, ⟨1, 2, 4⟩⟩
      [.lit (.long 1) ⟨1, 8, 2⟩, .lit (.long 2) ⟨1, 12, 2⟩] ⟨1, 1, 14⟩)
      ⟨default, {}, .standard, default, .staticMethod "main" [] .void, none⟩ default = .ok p := ⟨_, rfl⟩
  obtain ⟨elem, s₁, ht, -, -, -, hcode, -⟩ := array_initializer_builds_array h
  exact ⟨t, s', elem, s₁, h, ht, hcode⟩

end ClassCompiler
