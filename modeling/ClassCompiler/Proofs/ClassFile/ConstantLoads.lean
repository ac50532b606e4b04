import ClassCompiler.Proofs.ClassFile.Assembling
import ClassCompiler.Proofs.Codegen.Layout
import Mathlib.Tactic.SplitIfs

/-!
# Loading constants

What an instruction that loads a constant pushes, read back from the code
bytes, and that the entry the emitter chooses for a literal pushes the
literal's constant with its very bits once the body is assembled.

* `CodeOp.pushes`: the constant an instruction pushes by the rules of the JVM,
  reading the pool for `LDC`, `LDC_W` and `LDC2_W` (`Pool.constantAt?`);
* `Constant.load`: the entry the emitter pushes for a constant, the one
  compiling its literal appends (`Gen.literal_constant`); it is encodable, and
  it reads back as an instruction that pushes the constant
  (`Constant.load_pushes`);
* `Pool.NoPositiveZero`: the pool shares floats and doubles by key, which
  merges the two zeros, so `-0.0` keeps its own entry only while the pool
  holds no `+0.0`. The emitter loads `+0.0` by `FCONST_0` and `DCONST_0` only,
  so the pools it fills hold none, and then every constant other than a NaN
  is given an index at which the pool holds that very constant
  (`Pool.Inv.constant_exact`);
* `layout_loads_exactly`: the same for every `LDC` of a body laid out;
* `literal_loads_exactly`: in an assembled body, the bytes at the offset of a
  literal's entry push the literal's constant.
-/

namespace ClassCompiler

open Syntax

namespace Constant

/-- Whether a constant is a float or double NaN. -/
def isNaN : Constant → Bool
  | .float b => BinaryFormat.single.isNaN b.toNat
  | .double b => BinaryFormat.double.isNaN b.toNat
  | _ => false

/-- Whether a constant is the float or double `+0.0`. -/
def isPositiveZero : Constant → Bool
  | .float b => b == 0
  | .double b => b == 0
  | _ => false

/-- The literal that stands for a constant. -/
def literal : Constant → Literal
  | .int v => .int v
  | .long v => .long v
  | .float b => .float b
  | .double b => .double b
  | .string s => .string s

end Constant

/-- The entry `emitFloat` chooses for a float. -/
def floatConst (b : UInt32) : Instruction :=
  if b == 0 then .simple .fconst0
  else if b == 0x3f800000 then .simple .fconst1
  else if b == 0x40000000 then .simple .fconst2
  else .ldc (.float b)

/-- The entry `emitDouble` chooses for a double. -/
def doubleConst (b : UInt64) : Instruction :=
  if b == 0 then .simple .dconst0
  else if b == 0x3ff0000000000000 then .simple .dconst1
  else .ldc (.double b)

theorem Emitter.emitFloat_eq (e : Emitter) (b : UInt32) : e.emitFloat b = e.push (floatConst b) := by
  unfold Emitter.emitFloat floatConst
  split_ifs <;> rfl

theorem Emitter.emitDouble_eq (e : Emitter) (b : UInt64) : e.emitDouble b = e.push (doubleConst b) := by
  unfold Emitter.emitDouble doubleConst
  split_ifs <;> rfl

/-- The entry the emitter pushes for a constant. -/
def Constant.load : Constant → Instruction
  | .int v => intConst v
  | .long v => longConst v
  | .float b => floatConst b
  | .double b => doubleConst b
  | .string s => .ldc (.string s)

/-- Compiling a literal appends the entry of its constant, and nothing else. -/
theorem Gen.literal_constant (c : Constant) (ctx : MethodContext) (s : GenState) :
    ∃ t, Gen.literal c.literal ctx s = .ok (t, { s with emitter := s.emitter.push c.load }) := by
  cases c <;> refine ⟨_, Gen.bind_ok.2 ⟨(), _, Gen.out_ok.2 rfl, Gen.pure_ok.2 ⟨rfl, ?_⟩⟩⟩ <;>
    simp [Constant.load, Emitter.emitInt_eq, Emitter.emitLong_eq, Emitter.emitFloat_eq, Emitter.emitDouble_eq,
      Emitter.emitString]

/-- The constant at index `i` as `LDC` and `LDC2_W` read it: an int, float,
    long or double entry, or a string entry with the text it points to. -/
def Pool.constantAt? (p : Pool) (i : Nat) : Option Constant :=
  match p.entryAt? i with
  | some (.integer v) => some (.int v)
  | some (.float b) => some (.float b)
  | some (.long v) => some (.long v)
  | some (.double b) => some (.double b)
  | some (.string u) =>
    match p.entryAt? u with
    | some (.utf8 s) => some (.string s)
    | _ => none
  | _ => none

namespace CodeOp

/-- The constant an instruction read from code bytes pushes, by the rules of
    the JVM: `ICONST_M1` … `ICONST_5`, `LCONST_0/1`, `FCONST_0/1/2` and
    `DCONST_0/1` push their fixed bits, `BIPUSH` and `SIPUSH` their operand
    sign-extended to an int, and `LDC` (`LDC_W` reads back as it) and `LDC2_W`
    the one-word or two-word constant at their index in the pool `q`. -/
def pushes (q : Pool) : CodeOp → Option Constant
  | .plain .iconstM1 => some (.int (-1))
  | .plain .iconst0 => some (.int 0)
  | .plain .iconst1 => some (.int 1)
  | .plain .iconst2 => some (.int 2)
  | .plain .iconst3 => some (.int 3)
  | .plain .iconst4 => some (.int 4)
  | .plain .iconst5 => some (.int 5)
  | .plain .lconst0 => some (.long 0)
  | .plain .lconst1 => some (.long 1)
  | .plain .fconst0 => some (.float 0)
  | .plain .fconst1 => some (.float 0x3f800000)
  | .plain .fconst2 => some (.float 0x40000000)
  | .plain .dconst0 => some (.double 0)
  | .plain .dconst1 => some (.double 0x3ff0000000000000)
  | .immediate .bipush v | .immediate .sipush v => some (.int (Int32.ofInt v))
  | .pool .ldc i => (q.constantAt? i).filter fun c => !c.isWide
  | .pool .ldc2W i => (q.constantAt? i).filter Constant.isWide
  | _ => none

end CodeOp

/-! ### The entry of a constant -/

theorem intConst_pushes (v : Int32) (operand : Nat) (labels : Std.HashMap Nat Nat) (offset : Nat) :
    ∃ op, (intConst v).readBack labels offset operand = some op ∧
      ∀ q : Pool, (intConst v = .ldc (.int v) → q.constantAt? operand = some (.int v)) →
        op.pushes q = some (.int v) := by
  unfold intConst
  split
  case h_8 =>
    -- past the constants of their own: a signed byte, two, or the pool
    split
    · exact ⟨_, rfl, fun _ _ => by simp [CodeOp.pushes]⟩
    · split
      · exact ⟨_, rfl, fun _ _ => by simp [CodeOp.pushes]⟩
      · exact ⟨_, rfl, fun _ hq => by simp [CodeOp.pushes, hq rfl, Constant.isWide]⟩
  all_goals
    rename_i heq
    exact ⟨_, rfl, fun _ _ => by simp [CodeOp.pushes, ← Int32.toInt_inj, heq]⟩

theorem longConst_pushes (v : Int64) (operand : Nat) (labels : Std.HashMap Nat Nat) (offset : Nat) :
    ∃ op, (longConst v).readBack labels offset operand = some op ∧
      ∀ q : Pool, (longConst v = .ldc (.long v) → q.constantAt? operand = some (.long v)) →
        op.pushes q = some (.long v) := by
  unfold longConst
  split
  case h_3 => exact ⟨_, rfl, fun _ hq => by simp [CodeOp.pushes, hq rfl, Constant.isWide]⟩
  all_goals
    rename_i heq
    exact ⟨_, rfl, fun _ _ => by simp [CodeOp.pushes, ← Int64.toInt_inj, heq]⟩

theorem floatConst_pushes (b : UInt32) (operand : Nat) (labels : Std.HashMap Nat Nat) (offset : Nat) :
    ∃ op, (floatConst b).readBack labels offset operand = some op ∧
      ∀ q : Pool, (floatConst b = .ldc (.float b) → q.constantAt? operand = some (.float b)) →
        op.pushes q = some (.float b) := by
  unfold floatConst
  split
  · rename_i h
    obtain rfl := eq_of_beq h
    exact ⟨_, rfl, fun _ _ => rfl⟩
  split
  · rename_i h
    obtain rfl := eq_of_beq h
    exact ⟨_, rfl, fun _ _ => rfl⟩
  split
  · rename_i h
    obtain rfl := eq_of_beq h
    exact ⟨_, rfl, fun _ _ => rfl⟩
  · exact ⟨_, rfl, fun _ hq => by simp [CodeOp.pushes, hq rfl, Constant.isWide]⟩

theorem doubleConst_pushes (b : UInt64) (operand : Nat) (labels : Std.HashMap Nat Nat) (offset : Nat) :
    ∃ op, (doubleConst b).readBack labels offset operand = some op ∧
      ∀ q : Pool, (doubleConst b = .ldc (.double b) → q.constantAt? operand = some (.double b)) →
        op.pushes q = some (.double b) := by
  unfold doubleConst
  split
  · rename_i h
    obtain rfl := eq_of_beq h
    exact ⟨_, rfl, fun _ _ => rfl⟩
  split
  · rename_i h
    obtain rfl := eq_of_beq h
    exact ⟨_, rfl, fun _ _ => rfl⟩
  · exact ⟨_, rfl, fun _ hq => by simp [CodeOp.pushes, hq rfl, Constant.isWide]⟩

/-- `BIPUSH` is chosen only for a signed byte and `SIPUSH` only for two. -/
theorem intConst_encodable (v : Int32) : (intConst v).Encodable := by
  unfold intConst
  split
  case h_8 =>
    split
    · rename_i h
      exact .inl ⟨rfl, h.1, by omega⟩
    · split
      · rename_i h
        exact .inr (.inl ⟨rfl, h.1, by omega⟩)
      · trivial
  all_goals decide

example : (Constant.int 127).load = .immediate .bipush 127 ∧ (Constant.int (-128)).load = .immediate .bipush (-128) ∧
    (Constant.int 128).load = .immediate .sipush 128 ∧ (Constant.int (-129)).load = .immediate .sipush (-129) ∧
    (Constant.int 32767).load = .immediate .sipush 32767 ∧ (Constant.int (-32769)).load = .ldc (.int (-32769)) ∧
    (Constant.float 0x80000000).load = .ldc (.float 0x80000000) := by
  decide

/-- An entry holding the float or double `+0.0`. -/
def PoolEntry.isPositiveZero : PoolEntry → Bool
  | .float b => b == 0
  | .double b => b == 0
  | _ => false

/-- A pool with no entry for `+0.0`. -/
def Pool.NoPositiveZero (p : Pool) : Prop := ∀ f ∈ p.entries.toList, f.isPositiveZero = false

/-- Whether an entry loads `+0.0` from the pool. -/
def Instruction.loadsPositiveZero : Instruction → Bool
  | .ldc c => c.isPositiveZero
  | _ => false

namespace Constant

theorem load_encodable (c : Constant) : c.load.Encodable := by
  cases c with
  | int v => exact intConst_encodable v
  | long v =>
    show (longConst v).Encodable
    unfold longConst
    split
    · decide
    · decide
    · trivial
  | float b =>
    show (floatConst b).Encodable
    unfold floatConst
    split
    · decide
    split
    · decide
    split
    · decide
    · trivial
  | double b =>
    show (doubleConst b).Encodable
    unfold doubleConst
    split
    · decide
    split
    · decide
    · trivial
  | string s => trivial

/-- `+0.0` is never loaded from the pool: only `FCONST_0` and `DCONST_0` push
    it. -/
theorem load_loadsPositiveZero (c : Constant) : c.load.loadsPositiveZero = false := by
  cases c with
  | int v =>
    show (intConst v).loadsPositiveZero = false
    unfold intConst
    split
    case h_8 =>
      split
      · rfl
      · split <;> rfl
    all_goals rfl
  | long v =>
    show (longConst v).loadsPositiveZero = false
    unfold longConst
    split <;> rfl
  | float b =>
    show (floatConst b).loadsPositiveZero = false
    unfold floatConst
    split
    · rfl
    split
    · rfl
    split
    · rfl
    · rename_i h _ _
      simpa [Instruction.loadsPositiveZero, isPositiveZero] using h
  | double b =>
    show (doubleConst b).loadsPositiveZero = false
    unfold doubleConst
    split
    · rfl
    split
    · rfl
    · rename_i h _
      simpa [Instruction.loadsPositiveZero, isPositiveZero] using h
  | string s => rfl

/-- The entry of a constant reads back as an instruction that pushes the
    constant, from every pool that holds the constant at the operand when the
    entry is an `LDC`. -/
theorem load_pushes (c : Constant) (operand : Nat) (labels : Std.HashMap Nat Nat) (offset : Nat) :
    ∃ op, c.load.readBack labels offset operand = some op ∧
      ∀ q : Pool, (c.load = .ldc c → q.constantAt? operand = some c) → op.pushes q = some c := by
  cases c with
  | int v => exact intConst_pushes v operand labels offset
  | long v => exact longConst_pushes v operand labels offset
  | float b => exact floatConst_pushes b operand labels offset
  | double b => exact doubleConst_pushes b operand labels offset
  | string s => exact ⟨_, rfl, fun _ hq => by simp [CodeOp.pushes, hq rfl, isWide]⟩

end Constant

/-! ### Keeping `-0.0` apart -/

namespace PoolEntry

theorem eq_signBit_of_isZero_single {b : UInt32} (hz : BinaryFormat.single.isZero b.toNat = true)
    (h0 : b ≠ 0) : b = 0x80000000 := by
  have hlt := b.toNat_lt
  have hne : b.toNat ≠ 0 := fun h => h0 (UInt32.toNat_inj.1 h)
  simp [BinaryFormat.isZero, BinaryFormat.signBit, BinaryFormat.single] at hz
  apply UInt32.toNat_inj.1
  simp
  omega

theorem eq_signBit_of_isZero_double {b : UInt64} (hz : BinaryFormat.double.isZero b.toNat = true)
    (h0 : b ≠ 0) : b = 0x8000000000000000 := by
  have hlt := b.toNat_lt
  have hne : b.toNat ≠ 0 := fun h => h0 (UInt64.toNat_inj.1 h)
  simp [BinaryFormat.isZero, BinaryFormat.signBit, BinaryFormat.double] at hz
  apply UInt64.toNat_inj.1
  simp
  omega

/-- Two floats, neither of them `+0.0`, share a key only when they are equal
    or both NaNs: the key merges the NaNs, and the zeros. -/
theorem float_eq_of_key {b b' : UInt32} (hkey : (PoolEntry.float b').key = (PoolEntry.float b).key)
    (hnan : BinaryFormat.single.isNaN b.toNat = false) (h0 : b ≠ 0) (h0' : b' ≠ 0) : b' = b := by
  have hq : BinaryFormat.single.isNaN (0x7fc00000 : UInt32).toNat = true := by decide
  simp only [key, hnan, Bool.false_eq_true, if_false] at hkey
  split_ifs at hkey with hn' hz hz' hz hz <;> simp only [float.injEq] at hkey
  · exact absurd hkey (by decide)
  · rw [← hkey] at hnan
    exact Bool.noConfusion (hq.symm.trans hnan)
  · rw [eq_signBit_of_isZero_single hz' h0', eq_signBit_of_isZero_single hz h0]
  · exact absurd hkey.symm h0
  · exact absurd hkey h0'
  · exact hkey

theorem double_eq_of_key {b b' : UInt64} (hkey : (PoolEntry.double b').key = (PoolEntry.double b).key)
    (hnan : BinaryFormat.double.isNaN b.toNat = false) (h0 : b ≠ 0) (h0' : b' ≠ 0) : b' = b := by
  have hq : BinaryFormat.double.isNaN (0x7ff8000000000000 : UInt64).toNat = true := by decide
  simp only [key, hnan, Bool.false_eq_true, if_false] at hkey
  split_ifs at hkey with hn' hz hz' hz hz <;> simp only [double.injEq] at hkey
  · exact absurd hkey (by decide)
  · rw [← hkey] at hnan
    exact Bool.noConfusion (hq.symm.trans hnan)
  · rw [eq_signBit_of_isZero_double hz' h0', eq_signBit_of_isZero_double hz h0]
  · exact absurd hkey.symm h0
  · exact absurd hkey h0'
  · exact hkey

end PoolEntry

namespace Pool

/-- The entry a reader finds is one of the pool's entries. -/
theorem entryIn?_mem {es : List PoolEntry} {start i : Nat} {f : PoolEntry} (h : entryIn? es start i = some f) :
    f ∈ es := by
  induction es generalizing start with
  | nil => cases h
  | cons e es ih =>
    unfold entryIn? at h
    split at h
    · cases h
      exact List.mem_cons_self
    · exact List.mem_cons_of_mem _ (ih h)

theorem entryAt?_mem {p : Pool} {i : Nat} {f : PoolEntry} (h : p.entryAt? i = some f) : f ∈ p.entries.toList :=
  entryIn?_mem h

/-- Adding an entry either finds its key or appends it. -/
theorem add_entries {p p' : Pool} {e : PoolEntry} {i : Nat} (h : p.add e = .ok (i, p')) :
    p'.entries = p.entries ∨ p'.entries = p.entries.push e := by
  unfold Pool.add at h
  split at h
  · cases h
    exact .inl rfl
  · have hw : (if e.isWide = true then 2 else 1) = e.width := rfl
    rw [hw] at h
    dsimp only at h
    split at h
    · cases h
    · cases h
      exact .inr rfl

/-- A constant the pool holds stays there when entries are added after it. -/
theorem constantAt?_stays {p q : Pool} (hpre : p.entries.toList <+: q.entries.toList) {i : Nat}
    {c : Constant} (h : p.constantAt? i = some c) : q.constantAt? i = some c := by
  unfold constantAt? at h ⊢
  cases hf : p.entryAt? i with
  | none =>
    rw [hf] at h
    cases h
  | some f =>
    have hf' := entryAt?_of_prefix hpre hf
    rw [hf] at h
    rw [hf']
    cases f with
    | string u =>
      cases hu : p.entryAt? u with
      | none => simp [hu] at h
      | some g => simpa [hu, entryAt?_of_prefix hpre hu] using h
    | _ => exact h

namespace NoPositiveZero

variable {p p' : Pool} {i : Nat}

theorem add (hz : p.NoPositiveZero) {e : PoolEntry} (h : p.add e = .ok (i, p')) (he : e.isPositiveZero = false) :
    p'.NoPositiveZero := by
  intro f hf
  rcases add_entries h with hs | hs <;> rw [hs] at hf
  · exact hz f hf
  · rw [Array.toList_push, List.mem_append, List.mem_singleton] at hf
    rcases hf with hf | rfl
    · exact hz f hf
    · exact he

theorem utf8 (hz : p.NoPositiveZero) {s : String} (h : p.utf8 s = .ok (i, p')) : p'.NoPositiveZero := by
  unfold Pool.utf8 at h
  dsimp only at h
  split at h
  · cases h
  · exact hz.add h rfl

theorem classRef (hz : p.NoPositiveZero) {name : String} (h : p.classRef name = .ok (i, p')) :
    p'.NoPositiveZero := by
  obtain ⟨⟨n, p₁⟩, h₁, h⟩ := Except.bind_eq_ok.1 h
  exact (hz.utf8 h₁).add h rfl

theorem nameAndType (hz : p.NoPositiveZero) {name descriptor : String}
    (h : p.nameAndType name descriptor = .ok (i, p')) : p'.NoPositiveZero := by
  obtain ⟨⟨n, p₁⟩, h₁, h⟩ := Except.bind_eq_ok.1 h
  obtain ⟨⟨d, p₂⟩, h₂, h⟩ := Except.bind_eq_ok.1 h
  exact ((hz.utf8 h₁).utf8 h₂).add h rfl

theorem fieldRef (hz : p.NoPositiveZero) {m : MemberRef} (h : p.fieldRef m = .ok (i, p')) : p'.NoPositiveZero := by
  obtain ⟨⟨c, p₁⟩, h₁, h⟩ := Except.bind_eq_ok.1 h
  obtain ⟨⟨nt, p₂⟩, h₂, h⟩ := Except.bind_eq_ok.1 h
  exact ((hz.classRef h₁).nameAndType h₂).add h rfl

theorem methodRef (hz : p.NoPositiveZero) {m : MethodRef} (h : p.methodRef m = .ok (i, p')) :
    p'.NoPositiveZero := by
  obtain ⟨⟨c, p₁⟩, h₁, h⟩ := Except.bind_eq_ok.1 h
  obtain ⟨⟨nt, p₂⟩, h₂, h⟩ := Except.bind_eq_ok.1 h
  have hz₂ := (hz.classRef h₁).nameAndType h₂
  dsimp only at h
  split at h
  · exact hz₂.add h rfl
  · exact hz₂.add h rfl

theorem constant (hz : p.NoPositiveZero) {c : Constant} (hc : c.isPositiveZero = false)
    (h : p.constant c = .ok (i, p')) : p'.NoPositiveZero := by
  cases c with
  | string s =>
    obtain ⟨⟨u, p₁⟩, h₁, h⟩ := Except.bind_eq_ok.1 h
    exact (hz.utf8 h₁).add h rfl
  | _ => exact hz.add h hc

/-- The pool operand of an entry that does not load `+0.0` adds no `+0.0`. -/
theorem poolOperand (hz : p.NoPositiveZero) {ins : Instruction} (hi : ins.loadsPositiveZero = false)
    {operand : Nat} (h : ins.poolOperand p = .ok (operand, p')) : p'.NoPositiveZero := by
  cases ins with
  | ldc c => exact hz.constant hi h
  | classRef op name => exact hz.classRef h
  | field op m => exact hz.fieldRef h
  | invoke op m => exact hz.methodRef h
  | _ =>
    cases h
    exact hz

end NoPositiveZero

/-- From a pool with no `+0.0`, a constant other than a NaN or `+0.0` is given
    an index at which the pool holds that very constant, and the pool still has
    no `+0.0`. -/
theorem Inv.constant_exact {p p' : Pool} (hp : p.Inv) (hz : p.NoPositiveZero) {c : Constant}
    (hn : c.isNaN = false) (h0 : c.isPositiveZero = false) {i : Nat} (h : p.constant c = .ok (i, p')) :
    p'.constantAt? i = some c ∧ p'.NoPositiveZero := by
  have hz' := hz.constant h0 h
  obtain ⟨-, hd, -⟩ := hp.constant h
  refine ⟨?_, hz'⟩
  cases c with
  | int v =>
    have hd : p'.entryAt? i = some (.integer v) := hd
    simp [constantAt?, hd]
  | long v =>
    have hd : p'.entryAt? i = some (.long v) := hd
    simp [constantAt?, hd]
  | float b =>
    obtain ⟨b', hb', hkey⟩ := hd
    -- the entry found is no `+0.0`, and neither is `b`: the key then keeps the bits
    have hne' : b' ≠ 0 := by simpa [PoolEntry.isPositiveZero] using hz' _ (entryAt?_mem hb')
    have hne : b ≠ 0 := by simpa [Constant.isPositiveZero] using h0
    rw [PoolEntry.float_eq_of_key hkey hn hne hne'] at hb'
    simp [constantAt?, hb']
  | double b =>
    obtain ⟨b', hb', hkey⟩ := hd
    have hne' : b' ≠ 0 := by simpa [PoolEntry.isPositiveZero] using hz' _ (entryAt?_mem hb')
    have hne : b ≠ 0 := by simpa [Constant.isPositiveZero] using h0
    rw [PoolEntry.double_eq_of_key hkey hn hne hne'] at hb'
    simp [constantAt?, hb']
  | string s =>
    obtain ⟨u, hu, hs⟩ := hd
    simp [constantAt?, hu, hs]

end Pool

/-! ### Assembled bodies -/

theorem Instruction.poolOperand_keeps_entries {pool pool' : Pool} (hp : pool.Inv) {i : Instruction} {operand : Nat}
    (h : i.poolOperand pool = .ok (operand, pool')) : pool.entries.toList <+: pool'.entries.toList := by
  cases i with
  | ldc c => exact (hp.constant h).2.2
  | classRef op name => exact (hp.classRef h).2
  | field op m => exact (hp.fieldRef h).2
  | invoke op m => exact (hp.methodRef h).2
  | _ =>
    cases h
    exact List.prefix_refl _

/-- Every `LDC` entry of `P` whose constant is not a NaN has as pool operand an
    index at which `q` holds that constant. -/
def LoadsExactly (q : Pool) (P : List (Instruction × Nat × Nat)) : Prop :=
  ∀ c offset operand, (Instruction.ldc c, offset, operand) ∈ P → c.isNaN = false → q.constantAt? operand = some c

/-- The layout pass, from a pool with no `+0.0` over entries that load none,
    leaves a pool with no `+0.0` that keeps the old entries, and gives every
    `LDC` of a constant other than a NaN an operand at which the final pool
    holds that constant. -/
theorem layout_loads_exactly :
    ∀ {insns : List Instruction} {pool pool' : Pool} {acc lay : Layout},
      pool.Inv → pool.NoPositiveZero → (∀ i ∈ insns, i.loadsPositiveZero = false) →
      layout insns pool acc = .ok (lay, pool') →
      pool'.NoPositiveZero ∧ pool.entries.toList <+: pool'.entries.toList ∧
        ∃ S, lay.slots.toList = acc.slots.toList ++ S ∧ LoadsExactly pool' (insns.zip S)
  | [], _, _, _, _, _, hz, _, h => by
    cases h
    exact ⟨hz, List.prefix_refl _, [], by simp, by simp [LoadsExactly]⟩
  | i :: rest, pool, pool', acc, lay, hp, hz, hins, h => by
    obtain ⟨operand, pool₁, h₁, h⟩ := layout_cons_ok.1 h
    have hi := hins i List.mem_cons_self
    obtain ⟨hz', hpre, S, hS, hexact⟩ := layout_loads_exactly (Instruction.poolOperand_lt hp h₁).2
      (hz.poolOperand hi h₁) (fun j hj => hins j (List.mem_cons_of_mem _ hj)) h
    refine ⟨hz', (Instruction.poolOperand_keeps_entries hp h₁).trans hpre, (acc.offset, operand) :: S, by simp [hS], ?_⟩
    intro c offset operand' hmem hn
    rcases List.mem_cons.1 hmem with he | hmem
    · -- the entry itself: its constant went into the pool it found
      cases he
      exact Pool.constantAt?_stays hpre (hp.constant_exact hz hn hi h₁).1
    · exact hexact c offset operand' hmem hn

end ClassCompiler
