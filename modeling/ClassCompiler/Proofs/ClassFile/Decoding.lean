import ClassCompiler.ClassFile.Assemble
import ClassCompiler.Proofs.Build.Bodies

/-!
# Reading code bytes back

The instruction formats of the JVM as a reader of code bytes applies them: an
opcode byte, then the operands its format gives it. The one-byte local forms
`xLOAD_n` and `xSTORE_n`, the `WIDE` prefix and `LDC_W` are read as the load,
store and `LDC` they abbreviate, so that what is read back can be set beside
the entries a body was assembled from.

* `readOp`, `readCode`: one instruction, and every instruction from an offset
  on;
* `Instruction.readBack`: what an entry of a body reads back as, once laid out;
* `Instruction.Encodable`: an entry whose opcode is of the family its form
  writes;
* `encodeInstruction_size`: the bytes of an entry are as many as the layout
  counted for it;
* `readOp_encode`: the bytes of an encodable entry read back as that entry;
* `readCode_pieces`: the bytes of entries placed one after the other read back
  as those entries, each at its offset.
-/

namespace ClassCompiler

/-- How the operands of an instruction follow its opcode byte. -/
inductive OperandFormat where
  /-- no operand -/
  | none
  /-- one signed byte (`BIPUSH`) -/
  | signedByte
  /-- two bytes, signed (`SIPUSH`) -/
  | signedShort
  /-- one unsigned byte (the type code of `NEWARRAY`) -/
  | typeCode
  /-- a local slot in one byte -/
  | localIndex
  /-- a pool index in one byte (`LDC`) -/
  | poolByte
  /-- a pool index in two bytes -/
  | poolShort
  /-- a pool index in two bytes, a count byte and a zero byte -/
  | interfaceCall
  /-- the distance to the target, in two signed bytes -/
  | branch
  /-- an opcode and a local slot in two bytes (`WIDE`) -/
  | widened
  deriving DecidableEq, Repr

namespace Opcode

/-- The operand format of an opcode. -/
def operandFormat : Opcode → OperandFormat
  | .bipush => .signedByte
  | .sipush => .signedShort
  | .newarray => .typeCode
  | .iload | .lload | .fload | .dload | .aload
  | .istore | .lstore | .fstore | .dstore | .astore => .localIndex
  | .ldc => .poolByte
  | .ldcW | .ldc2W | .getstatic | .putstatic | .getfield | .putfield
  | .invokevirtual | .invokespecial | .invokestatic
  | .newObject | .anewarray | .checkcast | .instanceof => .poolShort
  | .invokeinterface => .interfaceCall
  | .wide => .widened
  | op => if op.isJump then .branch else .none

end Opcode

/-- The loads, in the order of their one-byte forms from `ILOAD_0` (0x1a) on. -/
def loadOps : List Opcode := [.iload, .lload, .fload, .dload, .aload]

/-- The stores, in the order of their one-byte forms from `ISTORE_0` (0x3b) on. -/
def storeOps : List Opcode := [.istore, .lstore, .fstore, .dstore, .astore]

/-- The load or store, and the slot, that a one-byte local form stands for. -/
def shortLocal? (b : Nat) : Option (Opcode × Nat) :=
  if 0x1a ≤ b ∧ b < 0x2e then loadOps[(b - 0x1a) / 4]?.map fun op => (op, (b - 0x1a) % 4)
  else if 0x3b ≤ b ∧ b < 0x4f then storeOps[(b - 0x3b) / 4]?.map fun op => (op, (b - 0x3b) % 4)
  else none

/-- Two bytes as an unsigned number, the first the more significant. -/
def word (hi lo : UInt8) : Nat := hi.toNat * 256 + lo.toNat

/-- A byte in two's complement. -/
def signed8 (b : UInt8) : Int := if b.toNat < 128 then b.toNat else (b.toNat : Int) - 256

/-- Two bytes in two's complement, the first the more significant. -/
def signed16 (hi lo : UInt8) : Int :=
  if word hi lo < 32768 then word hi lo else (word hi lo : Int) - 65536

/-- An instruction as read from code bytes. -/
inductive CodeOp where
  | plain (op : Opcode)
  | immediate (op : Opcode) (v : Int)
  | slot (op : Opcode) (index : Nat)
  | pool (op : Opcode) (index : Nat)
  /-- `INVOKEINTERFACE` with its pool index and count byte -/
  | interface (index count : Nat)
  | branch (op : Opcode) (distance : Int)
  deriving DecidableEq, Repr

/-- The operands of `op` at the front of `rest`, read by its format: the
    instruction, and the number of bytes it takes with its opcode. -/
def readOperands (op : Opcode) (rest : List UInt8) : Option (CodeOp × Nat) :=
  match op.operandFormat, rest with
  | .none, _ => some (.plain op, 1)
  | .signedByte, v :: _ => some (.immediate op (signed8 v), 2)
  | .signedShort, hi :: lo :: _ => some (.immediate op (signed16 hi lo), 3)
  | .typeCode, v :: _ => some (.immediate op v.toNat, 2)
  | .localIndex, n :: _ => some (.slot op n.toNat, 2)
  | .poolByte, n :: _ => some (.pool op n.toNat, 2)
  | .poolShort, hi :: lo :: _ => some (.pool (if op = .ldcW then .ldc else op) (word hi lo), 3)
  | .interfaceCall, hi :: lo :: count :: zero :: _ =>
    if zero = 0 then some (.interface (word hi lo) count.toNat, 5) else none
  | .branch, hi :: lo :: _ => some (.branch op (signed16 hi lo), 3)
  | .widened, code :: hi :: lo :: _ =>
    match Opcode.ofByte? code.toNat with
    | some op' => if op'.operandFormat = .localIndex then some (.slot op' (word hi lo), 4) else none
    | none => none
  | _, _ => none

/-- The instruction at the front of code bytes, and the number of bytes it
    takes; `none` when the bytes are not an instruction. -/
def readOp : List UInt8 → Option (CodeOp × Nat)
  | [] => none
  | b :: rest =>
    match shortLocal? b.toNat with
    | some (op, n) => some (.slot op n, 1)
    | none => (Opcode.ofByte? b.toNat).bind fun op => readOperands op rest

/-- Every instruction of code bytes that start at offset `pc`, with its
    offset; `none` when some bytes are not an instruction. -/
def readCode (bs : List UInt8) (pc : Nat) : Option (List (Nat × CodeOp)) :=
  match bs with
  | [] => some []
  | b :: rest =>
    match readOp (b :: rest) with
    | none => none
    | some (op, n) => ((pc, op) :: ·) <$> readCode (rest.drop (n - 1)) (pc + n)
termination_by bs.length
decreasing_by simp only [List.length_drop, List.length_cons]; omega

namespace Instruction

/-- Whether the operands of an interface call fit its count byte, which holds
    the argument slots and the receiver. -/
def countFits (m : MethodRef) : Bool :=
  match MethodType.ofDescriptor m.descriptor with
  | .ok mt => mt.paramSlots < 255
  | .error _ => true

/-- An entry whose opcode is of the family its form writes: an opcode without
    operand alone, a load or store on a slot below 65536, `BIPUSH` with a
    signed byte, `SIPUSH` with two, `NEWARRAY` with an unsigned byte, a class,
    field or method instruction on its member, and a jump to a label. An
    interface call passes fewer than 255 slots of arguments. -/
def Encodable : Instruction → Prop
  | .simple op => op.operandFormat = .none
  | .immediate op v =>
    (op = .bipush ∧ -128 ≤ v.toInt ∧ v.toInt < 128) ∨
      (op = .sipush ∧ -32768 ≤ v.toInt ∧ v.toInt < 32768) ∨
      (op = .newarray ∧ 0 ≤ v.toInt ∧ v.toInt < 256)
  | .slot op n => op.operandFormat = .localIndex ∧ n < 65536
  | .classRef op _ => op = .newObject ∨ op = .anewarray ∨ op = .checkcast ∨ op = .instanceof
  | .field op _ => op = .getstatic ∨ op = .putstatic ∨ op = .getfield ∨ op = .putfield
  | .invoke op m =>
    op = .invokevirtual ∨ op = .invokespecial ∨ op = .invokestatic ∨
      (op = .invokeinterface ∧ countFits m = true)
  | .jump op _ => op.isJump = true
  | .ldc _ | .label _ | .line _ => True

instance : DecidablePred Encodable := fun i => by
  cases i <;> unfold Encodable <;> infer_instance

/-- What the code of an entry reads back as, when it is laid out at `offset`
    with pool operand `operand` and the labels at `labels`: labels and lines
    have no code, a wide constant is loaded by `LDC2_W`, an interface call
    counts the argument slots and the receiver, and a jump holds the distance
    from itself to its label. -/
def readBack (labels : Std.HashMap Nat Nat) (offset operand : Nat) : Instruction → Option CodeOp
  | .label _ | .line _ => none
  | .simple op => some (.plain op)
  | .immediate op v => some (.immediate op v.toInt)
  | .slot op n => some (.slot op n)
  | .ldc c => some (.pool (if c.isWide then .ldc2W else .ldc) operand)
  | .classRef op _ | .field op _ => some (.pool op operand)
  | .invoke op m =>
    if op = .invokeinterface then
      match MethodType.ofDescriptor m.descriptor with
      | .ok mt => some (.interface operand (mt.paramSlots + 1))
      | .error _ => none
    else some (.pool op operand)
  | .jump op l => (labels.get? l).map fun (target : Nat) => .branch op ((target : Int) - (offset : Int))

end Instruction

/-! ## Bytes -/

namespace Bytes

@[simp] theorem toList_u8 (out : Array UInt8) (n : Nat) :
    (u8 out n).toList = out.toList ++ [(n % 256).toUInt8] := by
  simp [u8]

@[simp] theorem toList_u16 (out : Array UInt8) (n : Nat) :
    (u16 out n).toList = out.toList ++ [(n / 256 % 256).toUInt8, (n % 256).toUInt8] := by
  simp [u16, putBE, List.range_succ]

@[simp] theorem toList_signed_one (out : Array UInt8) (v : Int) :
    (signed out 1 v).toList = out.toList ++ [((v % 256).toNat % 256).toUInt8] := by
  simp [signed, putBE, List.range_succ, Nat.pow]

@[simp] theorem toList_signed_two (out : Array UInt8) (v : Int) :
    (signed out 2 v).toList =
      out.toList ++ [((v % 65536).toNat / 256 % 256).toUInt8, ((v % 65536).toNat % 256).toUInt8] := by
  simp [signed, putBE, List.range_succ, Nat.pow]

end Bytes

theorem word_u16 {n : Nat} (h : n < 65536) : word (n / 256 % 256).toUInt8 (n % 256).toUInt8 = n := by
  simp [word]; omega

theorem signed8_signed {v : Int} (h₁ : -128 ≤ v) (h₂ : v < 128) :
    signed8 ((v % 256).toNat % 256).toUInt8 = v := by
  simp only [signed8]
  split <;> simp at * <;> omega

theorem signed16_signed {v : Int} (h₁ : -32768 ≤ v) (h₂ : v < 32768) :
    signed16 ((v % 65536).toNat / 256 % 256).toUInt8 ((v % 65536).toNat % 256).toUInt8 = v := by
  have hw : word ((v % 65536).toNat / 256 % 256).toUInt8 ((v % 65536).toNat % 256).toUInt8 =
      (v % 65536).toNat := word_u16 (by omega)
  simp only [signed16, hw]
  split <;> omega

/-! ## Opcode bytes -/

namespace Opcode

theorem byte_lt (op : Opcode) : op.byte < 256 := by
  cases op <;> decide

@[simp] theorem ofByte?_byte (op : Opcode) : ofByte? op.byte = some op := by
  cases op <;> rfl

/-- No opcode byte is one of the one-byte local forms. -/
@[simp] theorem shortLocal?_byte (op : Opcode) : shortLocal? op.byte = none := by
  cases op <;> rfl

@[simp] theorem byte_mod (op : Opcode) : op.byte % 256 = op.byte := Nat.mod_eq_of_lt op.byte_lt

@[simp] theorem toNat_byte (op : Opcode) : op.byte.toUInt8.toNat = op.byte := by
  simp

/-- An opcode byte is read by the opcode's format. -/
@[simp] theorem readOp_byte (op : Opcode) (rest : List UInt8) :
    readOp (op.byte.toUInt8 :: rest) = readOperands op rest := by
  simp [readOp]

theorem operandFormat_of_isJump {op : Opcode} (h : op.isJump = true) : op.operandFormat = .branch := by
  cases op <;> first | rfl | cases h

end Opcode

/-- A load or store of one of the first four slots is one byte, which reads
    back as that load or store. -/
theorem encodeSlot_short {op : Opcode} {n : Nat} (hop : op.operandFormat = .localIndex) (hn : n ≤ 3) :
    ∃ b, encodeSlot #[] op n = #[b] ∧ shortLocal? b.toNat = some (op, n) := by
  obtain rfl | rfl | rfl | rfl : n = 0 ∨ n = 1 ∨ n = 2 ∨ n = 3 := by omega
  all_goals cases op <;> first | exact ⟨_, rfl, rfl⟩ | cases hop

/-! ## The bytes of one entry -/

theorem encodeSlot_append (out : Array UInt8) (op : Opcode) (n : Nat) :
    encodeSlot out op n = out ++ encodeSlot #[] op n := by
  apply Array.toList_inj.1
  unfold encodeSlot
  dsimp only
  split
  · split <;> simp
  · split <;> simp

/-- An entry's bytes are appended to what was written before, and do not
    depend on it. -/
theorem encodeInstruction_append (method : String) (labels : Std.HashMap Nat Nat) (out : Array UInt8)
    (i : Instruction) (offset operand : Nat) :
    encodeInstruction method labels out i offset operand =
      (out ++ ·) <$> encodeInstruction method labels #[] i offset operand := by
  cases i with
  | slot op n => exact congrArg Except.ok (encodeSlot_append out op n)
  | _ =>
    simp only [encodeInstruction]
    -- every other entry appends a fixed sequence of bytes, or fails alike
    (repeat' split) <;> simp only [Functor.map, Except.map] <;> (try apply congrArg) <;>
      (try apply Array.toList_inj.1) <;> simp

/-- The bytes of an entry are as many as the layout counted for it. -/
theorem encodeInstruction_size {method : String} {labels : Std.HashMap Nat Nat} {i : Instruction}
    {offset operand : Nat} {bs : Array UInt8}
    (h : encodeInstruction method labels #[] i offset operand = .ok bs) :
    bs.size = i.encodedSize operand := by
  rw [← Array.length_toList]
  cases i with
  | slot op n =>
    cases h
    unfold encodeSlot Instruction.encodedSize
    dsimp only
    split
    · split <;> simp
    · split <;> simp [*]
  | _ =>
    simp only [encodeInstruction] at h
    (repeat' split at h) <;> cases h <;> simp_all [Instruction.encodedSize]

/-- The bytes of an encodable entry, whatever follows them, read back as the
    entry, over as many bytes as it was given. -/
theorem readOp_encode {method : String} {labels : Std.HashMap Nat Nat} {i : Instruction}
    {offset operand : Nat} {bs : Array UInt8} {c : CodeOp}
    (hi : i.Encodable) (ho : operand < 65536)
    (h : encodeInstruction method labels #[] i offset operand = .ok bs)
    (hc : i.readBack labels offset operand = some c) (rest : List UInt8) :
    readOp (bs.toList ++ rest) = some (c, i.encodedSize operand) := by
  cases i with
  | simple op =>
    cases h; cases hc
    simp only [Instruction.Encodable] at hi
    simp [readOperands, hi, Instruction.encodedSize]
  | immediate op v =>
    cases h; cases hc
    simp only [Instruction.Encodable] at hi
    rcases hi with ⟨rfl, h₁, h₂⟩ | ⟨rfl, h₁, h₂⟩ | ⟨rfl, h₁, h₂⟩
    · simp [readOperands, Opcode.operandFormat, signed8_signed h₁ h₂, Instruction.encodedSize]
    · simp [readOperands, Opcode.operandFormat, signed16_signed h₁ h₂, Instruction.encodedSize]
    · simp [readOperands, Opcode.operandFormat, Instruction.encodedSize]
      omega
  | slot op n =>
    cases h; cases hc
    simp only [Instruction.Encodable] at hi
    obtain ⟨hop, hn⟩ := hi
    -- the one-byte form, the form with a byte operand, and the `WIDE` form
    by_cases h3 : n ≤ 3
    · obtain ⟨b, hb, hs⟩ := encodeSlot_short hop h3
      rw [hb]
      simp [readOp, hs, Instruction.encodedSize, h3]
    · by_cases h255 : n ≤ 255
      · simp [encodeSlot, h3, h255, readOperands, hop, Instruction.encodedSize]
        omega
      · have hw : Opcode.wide.operandFormat = .widened := rfl
        simp [encodeSlot, h3, h255, readOperands, hw, hop, word_u16 hn, Instruction.encodedSize]
  | ldc k =>
    cases hc
    simp only [encodeInstruction] at h
    -- `LDC2_W`, `LDC_W` and `LDC`
    split at h
    · cases h
      simp [readOperands, Opcode.operandFormat, word_u16 ho, Instruction.encodedSize, *]
    · split at h
      · cases h
        simp [readOperands, Opcode.operandFormat, word_u16 ho, Instruction.encodedSize, *]
      · cases h
        simp [readOperands, Opcode.operandFormat, Instruction.encodedSize, *]
        omega
  | classRef op name =>
    simp only [Instruction.Encodable] at hi
    rcases hi with rfl | rfl | rfl | rfl <;> cases h <;> cases hc <;>
      simp [readOperands, Opcode.operandFormat, word_u16 ho, Instruction.encodedSize]
  | field op m =>
    simp only [Instruction.Encodable] at hi
    rcases hi with rfl | rfl | rfl | rfl <;> cases h <;> cases hc <;>
      simp [readOperands, Opcode.operandFormat, word_u16 ho, Instruction.encodedSize]
  | invoke op m =>
    simp only [Instruction.Encodable] at hi
    rcases hi with rfl | rfl | rfl | ⟨rfl, hfit⟩
    any_goals
      cases h; cases hc
      simp [readOperands, Opcode.operandFormat, word_u16 ho, Instruction.encodedSize]
    -- the interface call: its count byte holds the argument slots and the receiver
    cases hd : MethodType.ofDescriptor m.descriptor with
    | error e => simp [Instruction.readBack, hd] at hc
    | ok mt =>
      simp only [Instruction.countFits, hd, decide_eq_true_eq] at hfit
      simp [encodeInstruction, hd] at h
      simp [Instruction.readBack, hd] at hc
      subst h hc
      simp [readOperands, Opcode.operandFormat, word_u16 ho, Instruction.encodedSize]
      omega
  | jump op l =>
    simp only [Instruction.Encodable] at hi
    simp only [encodeInstruction] at h
    simp only [Instruction.readBack] at hc
    cases hl : labels.get? l with
    | none => simp only [hl] at h; cases h
    | some target =>
      simp only [hl, Option.map_some, Option.some.injEq] at h hc
      subst hc
      split at h
      · cases h
      · cases h
        simp [readOperands, Opcode.operandFormat_of_isJump hi,
          @signed16_signed ((target : Int) - offset) (by omega) (by omega), Instruction.encodedSize]
  | label l => cases hc
  | line n => cases hc

/-- An entry that reads back as nothing is given no bytes. -/
theorem encodeInstruction_readBack_none {method : String} {labels : Std.HashMap Nat Nat}
    {i : Instruction} {offset operand : Nat} {bs : Array UInt8}
    (h : encodeInstruction method labels #[] i offset operand = .ok bs)
    (hn : i.readBack labels offset operand = none) : bs = #[] := by
  cases i with
  | label l => cases h; rfl
  | line n => cases h; rfl
  | invoke op m =>
    simp only [Instruction.readBack] at hn
    split at hn
    · subst op
      cases hd : MethodType.ofDescriptor m.descriptor <;> simp [hd] at hn
      simp [encodeInstruction, hd] at h
    · cases hn
  | jump op l =>
    simp only [Instruction.readBack, Option.map_eq_none_iff] at hn
    simp only [encodeInstruction, hn] at h
    cases h
  | _ => cases hn

/-- An entry that reads back as an instruction is given at least one byte. -/
theorem encodedSize_pos_of_readBack {labels : Std.HashMap Nat Nat} {i : Instruction}
    {offset operand : Nat} {c : CodeOp} (h : i.readBack labels offset operand = some c) :
    0 < i.encodedSize operand := by
  cases i <;> simp only [Instruction.readBack] at h <;> simp only [Instruction.encodedSize] <;>
    (repeat' split) <;> first | omega | cases h

/-- Entries placed one after the other from offset `pc` up to `stop`: each an
    instruction with its offset and pool operand, at the offset the sizes of
    those before it give. -/
inductive Placed : Nat → List (Instruction × Nat × Nat) → Nat → Prop
  | nil (pc : Nat) : Placed pc [] pc
  | cons {pc stop : Nat} {i : Instruction} {operand : Nat} {rest : List (Instruction × Nat × Nat)} :
      Placed (pc + i.encodedSize operand) rest stop → Placed pc ((i, pc, operand) :: rest) stop

/-- Encoding entries one after the other: each entry's bytes are appended. -/
theorem encodeAll_each {method : String} {labels : Std.HashMap Nat Nat} :
    ∀ {es : List (Instruction × Nat × Nat)} {out res : Array UInt8},
      es.foldlM (fun out e => encodeInstruction method labels out e.1 e.2.1 e.2.2) out = .ok res →
      ∀ e ∈ es, ∃ bs, encodeInstruction method labels #[] e.1 e.2.1 e.2.2 = .ok bs
  | [], _, _, _ => by simp
  | e :: es, out, res, h => by
    rw [List.foldlM_cons] at h
    obtain ⟨out', he, h⟩ := Except.bind_eq_ok.1 h
    rw [encodeInstruction_append] at he
    intro e' he'
    rcases List.mem_cons.1 he' with rfl | he'
    · cases hb : encodeInstruction method labels #[] e'.1 e'.2.1 e'.2.2 with
      | error err => rw [hb] at he; cases he
      | ok bs => exact ⟨bs, rfl⟩
    · exact encodeAll_each h e' he'

/-- Encoding entries placed one after the other appends bytes that read back
    as the entries that produce code, each at its offset. -/
theorem readCode_encodeAll {method : String} {labels : Std.HashMap Nat Nat} :
    ∀ {pc stop : Nat} {es : List (Instruction × Nat × Nat)} {out res : Array UInt8},
      Placed pc es stop → (∀ e ∈ es, e.1.Encodable ∧ e.2.2 < 65536) →
      es.foldlM (fun out e => encodeInstruction method labels out e.1 e.2.1 e.2.2) out = .ok res →
      ∃ bytes, res.toList = out.toList ++ bytes ∧
        readCode bytes pc = some (es.filterMap fun e => (e.1.readBack labels e.2.1 e.2.2).map fun c => (e.2.1, c))
  | _, _, [], out, res, .nil _, _, h => by
    cases h
    exact ⟨[], by simp, by simp [readCode]⟩
  | pc, stop, (i, _, operand) :: es, out, res, .cons hP, hE, h => by
    rw [List.foldlM_cons] at h
    obtain ⟨out', hstep, h⟩ := Except.bind_eq_ok.1 h
    dsimp only at hstep
    rw [encodeInstruction_append] at hstep
    obtain ⟨bs, he, rfl⟩ : ∃ bs, encodeInstruction method labels #[] i pc operand = .ok bs ∧ out' = out ++ bs := by
      cases he : encodeInstruction method labels #[] i pc operand with
      | error err => rw [he] at hstep; cases hstep
      | ok bs => rw [he] at hstep; cases hstep; exact ⟨bs, rfl, rfl⟩
    obtain ⟨bytes, hres, ih⟩ := readCode_encodeAll hP (fun e he' => hE e (List.mem_cons_of_mem _ he')) h
    have hi := hE _ List.mem_cons_self
    refine ⟨bs.toList ++ bytes, by simp [hres], ?_⟩
    simp only [List.filterMap_cons]
    have hsize := encodeInstruction_size he
    cases hc : i.readBack labels pc operand with
    | none =>
      -- a label or a line: no bytes, and the next entry at the same offset
      have hbs := encodeInstruction_readBack_none he hc
      subst hbs
      simp only [Array.size_empty] at hsize
      rw [← hsize, Nat.add_zero] at ih
      simpa using ih
    | some c =>
      have hpos := encodedSize_pos_of_readBack hc
      have hread := readOp_encode hi.1 hi.2 he hc bytes
      obtain ⟨b, bs', hb⟩ : ∃ b bs', bs.toList = b :: bs' := by
        cases hl : bs.toList with
        | nil => simp [← Array.length_toList, hl] at hsize; omega
        | cons b bs' => exact ⟨b, bs', rfl⟩
      have hlen : bs'.length = i.encodedSize operand - 1 := by
        have := congrArg List.length hb
        simp only [Array.length_toList, List.length_cons] at this
        omega
      rw [hb, List.cons_append, readCode]
      rw [hb, List.cons_append] at hread
      simp only [hread, Option.map_some]
      rw [← hlen, List.drop_left, ih]
      rfl

end ClassCompiler
