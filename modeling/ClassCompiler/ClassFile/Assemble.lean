import ClassCompiler.ClassFile.Pool
import ClassCompiler.ClassFile.StackDepth

/-!
# Assembling method bodies

Turning the entries of a body into code bytes. First the operand stack is
analysed; then every entry gets its offset and its constant pool operand in
order, labels take the offset of the next instruction, and line entries make
the line number table (a second line at the same offset replaces the first,
and lines above 65535 are written as 65535). Short forms are chosen where they
exist: `xLOAD_n` for the first four slots, `WIDE` for slots above 255, and
`LDC_W` for a constant whose index does not fit in a byte. A jump stores the
distance from its own offset to its target in two signed bytes.
-/

namespace ClassCompiler

/-- The largest code length of a method. -/
def maxCodeLength : Nat := 65535

/-- An assembled body: code bytes, stack and frame sizes, and the line table as
    pairs of offset and line. -/
structure AssembledCode where
  bytes : Array UInt8
  maxStack : Nat
  maxLocals : Nat
  lineNumbers : Array (Nat × Nat)

namespace Instruction

/-- The number of code bytes of an entry whose pool operand is `operand`. -/
def encodedSize (i : Instruction) (operand : Nat) : Nat :=
  match i with
  | .label _ | .line _ => 0
  | .simple _ => 1
  | .immediate op _ => if op == .sipush then 3 else 2
  | .slot _ n => if n ≤ 3 then 1 else if n ≤ 255 then 2 else 4
  | .ldc c => if c.isWide || operand > 255 then 3 else 2
  | .invoke op _ => if op == .invokeinterface then 5 else 3
  | .classRef .. | .field .. | .jump .. => 3

/-- The constant pool operand of an entry, added to the pool on the way. -/
def poolOperand (pool : Pool) : Instruction → Except EmitError (Nat × Pool)
  | .ldc c => pool.constant c
  | .classRef _ name => pool.classRef name
  | .field _ m => pool.fieldRef m
  | .invoke _ m => pool.methodRef m
  | _ => .ok (0, pool)

end Instruction

/-- The bytes of a load or store of a local slot. The first four slots have
    one-byte forms; the byte arithmetic wraps like a byte register. -/
def encodeSlot (out : Array UInt8) (op : Opcode) (n : Nat) : Array UInt8 :=
  let code := op.byte
  if n ≤ 3 then
    let (base, first) := if code < Opcode.istore.byte then (0x1a, Opcode.iload.byte)
      else (0x3b, Opcode.istore.byte)
    Bytes.u8 out (((base : Int) + ((code : Int) - first) % 256 * 4 + n) % 256).toNat
  else if n ≤ 255 then Bytes.u8 (Bytes.u8 out code) n
  else Bytes.u16 (Bytes.u8 (Bytes.u8 out Opcode.wide.byte) code) n

/-- The line table after a line entry at `offset`: the same offset replaces the
    last pair. -/
def addLine (table : Array (Nat × Nat)) (offset line : Nat) : Array (Nat × Nat) :=
  let entry := (offset % 65536, min line 65535)
  match table.back? with
  | some (pc, _) => if pc = offset then table.pop.push entry else table.push entry
  | none => table.push entry

/-- The bytes of one entry at `offset` with pool operand `operand`. -/
def encodeInstruction (method : String) (labels : Std.HashMap Nat Nat) (out : Array UInt8)
    (i : Instruction) (offset operand : Nat) : Except EmitError (Array UInt8) :=
  match i with
  | .label _ | .line _ => .ok out
  | .simple op => .ok (Bytes.u8 out op.byte)
  | .immediate op v =>
    let out := Bytes.u8 out op.byte
    .ok (if op == .sipush then Bytes.signed out 2 v.toInt else Bytes.signed out 1 v.toInt)
  | .slot op n => .ok (encodeSlot out op n)
  | .ldc c =>
    if c.isWide then .ok (Bytes.u16 (Bytes.u8 out Opcode.ldc2W.byte) operand)
    else if operand > 255 then .ok (Bytes.u16 (Bytes.u8 out Opcode.ldcW.byte) operand)
    else .ok (Bytes.u8 (Bytes.u8 out Opcode.ldc.byte) operand)
  | .invoke op m =>
    if op == .invokeinterface then
      match MethodType.ofDescriptor m.descriptor with
      | .error e => .error (.descriptor e)
      | .ok mt => .ok (Bytes.u8 (Bytes.u8 (Bytes.u16 (Bytes.u8 out op.byte) operand) (mt.paramSlots + 1)) 0)
    else .ok (Bytes.u16 (Bytes.u8 out op.byte) operand)
  | .classRef op _ | .field op _ => .ok (Bytes.u16 (Bytes.u8 out op.byte) operand)
  | .jump op l =>
    match labels.get? l with
    | none => .error (.unboundLabel method l)
    | some target =>
      let delta : Int := (target : Int) - offset
      if delta < -32768 ∨ delta > 32767 then .error (.branchOutOfRange method delta)
      else .ok (Bytes.signed (Bytes.u8 out op.byte) 2 delta)

/-- Where the first pass leaves a body: each entry's offset and pool operand,
    the label offsets, the line table, the pool and the next offset. -/
structure Layout where
  slots : Array (Nat × Nat) := #[]
  labels : Std.HashMap Nat Nat := {}
  lines : Array (Nat × Nat) := #[]
  offset : Nat := 0

/-- Lay out the entries: offsets, pool operands, labels and lines. -/
def layout (insns : List Instruction) (pool : Pool) (acc : Layout) :
    Except EmitError (Layout × Pool) :=
  match insns with
  | [] => .ok (acc, pool)
  | i :: rest => do
    let (operand, pool) ← i.poolOperand pool
    let acc := { acc with slots := acc.slots.push (acc.offset, operand) }
    let acc := match i with
      | .label l => { acc with labels := acc.labels.insert l acc.offset }
      | .line n => { acc with lines := addLine acc.lines acc.offset n }
      | _ => acc
    layout rest pool { acc with offset := acc.offset + i.encodedSize operand }

/-- Assemble a body of the method named `method`, adding its operands to the pool. -/
def assemble (method : String) (code : Code) (pool : Pool) :
    Except EmitError (AssembledCode × Pool) := do
  let stack ← maxStack method code.instructions
  let (lay, pool) ← layout code.instructions.toList pool {}
  if lay.offset > maxCodeLength then throw (.codeTooLarge method lay.offset)
  let out ← (code.instructions.toList.zip lay.slots.toList).foldlM
    (fun out (i, (offset, operand)) => encodeInstruction method lay.labels out i offset operand) #[]
  pure ({ bytes := out, maxStack := stack, maxLocals := code.maxLocals, lineNumbers := lay.lines }, pool)

end ClassCompiler
