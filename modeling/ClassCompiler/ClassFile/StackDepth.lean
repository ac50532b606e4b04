import Std.Data.HashMap
import ClassCompiler.ClassFile.Error
import ClassCompiler.Jvm.Instruction

/-!
# Operand stack depth

How many stack words each instruction takes and leaves, and the depth of the
operand stack at every reachable entry of a body. The analysis walks the
entries from the first one along fall-through and jump edges, taking the most
recently found entry first; the first entry reached with two different depths,
or an instruction finding too few words, stops it. Its result is the greatest
depth after any reachable instruction. Depths and stack effects are 16-bit
words, as the class file writes them: a count past 65535 wraps around.
-/

namespace ClassCompiler

/-- Depths and stack effects are counted modulo this. -/
def depthModulus : Nat := 65536

/-- The stack words an instruction takes and leaves. -/
structure StackEffect where
  pops : Nat
  pushes : Nat
  deriving DecidableEq, Repr

namespace Opcode

/-- The stack effect of an opcode used without a member operand. Member
    instructions have none: their effect depends on the member. -/
def effect? : Opcode → Option StackEffect
  | .nop | .wide | .goto | .returnVoid => some ⟨0, 0⟩
  | .swap => some ⟨2, 2⟩
  | .aconstNull | .iconstM1 | .iconst0 | .iconst1 | .iconst2 | .iconst3 | .iconst4 | .iconst5
  | .fconst0 | .fconst1 | .fconst2 | .bipush | .sipush | .ldc | .ldcW | .newObject => some ⟨0, 1⟩
  | .lconst0 | .lconst1 | .dconst0 | .dconst1 | .ldc2W => some ⟨0, 2⟩
  | .iload | .fload | .aload => some ⟨0, 1⟩
  | .lload | .dload => some ⟨0, 2⟩
  | .istore | .fstore | .astore => some ⟨1, 0⟩
  | .lstore | .dstore => some ⟨2, 0⟩
  | .iaload | .faload | .aaload | .baload | .caload | .saload => some ⟨2, 1⟩
  | .laload | .daload => some ⟨2, 2⟩
  | .iastore | .fastore | .aastore | .bastore | .castore | .sastore => some ⟨3, 0⟩
  | .lastore | .dastore => some ⟨4, 0⟩
  | .pop => some ⟨1, 0⟩
  | .pop2 => some ⟨2, 0⟩
  | .dup => some ⟨1, 2⟩
  | .dupX1 => some ⟨2, 3⟩
  | .dupX2 => some ⟨3, 4⟩
  | .dup2 => some ⟨2, 4⟩
  | .dup2X1 => some ⟨3, 5⟩
  | .dup2X2 => some ⟨4, 6⟩
  | .iadd | .isub | .imul | .idiv | .irem | .iand | .ior | .ixor
  | .fadd | .fsub | .fmul | .fdiv | .frem => some ⟨2, 1⟩
  | .ladd | .lsub | .lmul | .ldiv | .lrem | .dadd | .dsub | .dmul | .ddiv | .drem => some ⟨4, 2⟩
  | .ineg | .fneg => some ⟨1, 1⟩
  | .lneg | .dneg => some ⟨2, 2⟩
  | .i2l | .i2d | .f2l | .f2d => some ⟨1, 2⟩
  | .i2f | .f2i | .i2b | .i2c | .i2s => some ⟨1, 1⟩
  | .l2i | .l2f | .d2i | .d2f => some ⟨2, 1⟩
  | .l2d | .d2l => some ⟨2, 2⟩
  | .lcmp | .dcmpl | .dcmpg => some ⟨4, 1⟩
  | .fcmpl | .fcmpg => some ⟨2, 1⟩
  | .ifeq | .ifne | .iflt | .ifge | .ifgt | .ifle | .ifnull | .ifnonnull => some ⟨1, 0⟩
  | .ifIcmpeq | .ifIcmpne | .ifIcmplt | .ifIcmpge | .ifIcmpgt | .ifIcmple
  | .ifAcmpeq | .ifAcmpne => some ⟨2, 0⟩
  | .ireturn | .freturn | .areturn => some ⟨1, 0⟩
  | .lreturn | .dreturn => some ⟨2, 0⟩
  | .newarray | .anewarray | .arraylength | .checkcast | .instanceof => some ⟨1, 1⟩
  | .getstatic | .putstatic | .getfield | .putfield
  | .invokevirtual | .invokespecial | .invokestatic | .invokeinterface => none

end Opcode

namespace Instruction

/-- The stack effect of an entry. Field and method instructions read it off the
    member's descriptor, which must be readable. -/
def stackEffect : Instruction → Except EmitError StackEffect
  | .label _ | .line _ => .ok ⟨0, 0⟩
  | .ldc c => .ok ⟨0, if c.isWide then 2 else 1⟩
  | .field op m =>
    match Ty.ofDescriptor m.descriptor with
    | .error e => .error (.descriptor e)
    | .ok t =>
      let size := t.slotSize
      .ok (match op with
        | .getstatic => ⟨0, size⟩
        | .putstatic => ⟨size, 0⟩
        | .getfield => ⟨1, size⟩
        | _ => ⟨1 + size, 0⟩)
  | .invoke op m =>
    match MethodType.ofDescriptor m.descriptor with
    | .error e => .error (.descriptor e)
    | .ok mt =>
      let receiver := if op == .invokestatic then 0 else 1
      .ok ⟨(mt.paramSlots + receiver) % depthModulus, mt.ret.slotSize⟩
  | .simple op | .immediate op _ | .slot op _ | .classRef op _ | .jump op _ =>
    match op.effect? with
    | some e => .ok e
    | none => .error (.descriptor (.invalid op.mnemonic .memberWithoutReference))

end Instruction

/-- The position of each label in a list of entries; a label placed twice
    stands for its last place. -/
def labelPositions (insns : Array Instruction) : Std.HashMap Nat Nat :=
  (insns.toList.zipIdx).foldl
    (fun m (i, n) => match i with
      | .label l => m.insert l n
      | _ => m) {}

/-- The state of the depth analysis: the depth found at each entry, the entries
    still to visit (most recent first), and the greatest depth so far. -/
structure DepthWalk where
  depths : Array (Option Nat)
  pending : List Nat
  deepest : Nat

namespace DepthWalk

/-- Record that control reaches entry `i` with `depth` words on the stack. An
    entry past the end is ignored; an entry reached before must have the same
    depth. -/
def reach (method : String) (w : DepthWalk) (i depth : Nat) : Except EmitError DepthWalk :=
  if h : i < w.depths.size then
    match w.depths[i] with
    | some first =>
      if first = depth then .ok w else .error (.stackMismatch method i first depth)
    | none => .ok { w with depths := w.depths.set i (some depth), pending := i :: w.pending }
  else .ok w

/-- Visit pending entries, at most `fuel` of them. -/
def run (method : String) (insns : Array Instruction) (labels : Std.HashMap Nat Nat) :
    Nat → DepthWalk → Except EmitError DepthWalk
  | 0, w => .ok w
  | fuel + 1, w =>
    match w.pending with
    | [] => .ok w
    | i :: rest => do
      let w := { w with pending := rest }
      let insn := insns[i]?.getD default
      let depth := (w.depths[i]?.getD none).getD 0
      let eff ← insn.stackEffect
      if depth < eff.pops then throw (.stackUnderflow method i)
      let after := (depth - eff.pops + eff.pushes) % depthModulus
      let w := { w with deepest := max w.deepest after }
      let w ← match insn with
        | .jump op l =>
          match labels.get? l with
          | none => throw (.unboundLabel method l)
          | some target => do
            let w ← w.reach method target after
            if op == .goto then pure w
            else if insn.fallsThrough then w.reach method (i + 1) after else pure w
        | _ => if insn.fallsThrough then w.reach method (i + 1) after else pure w
      run method insns labels fuel w

end DepthWalk

/-- The greatest operand stack depth of a body, or why it has none. Each entry
    is visited at most once, so one step per entry suffices. -/
def maxStack (method : String) (insns : Array Instruction) : Except EmitError Nat := do
  let start : DepthWalk := { depths := Array.replicate insns.size none, pending := [], deepest := 0 }
  let w ← start.reach method 0 0
  let w ← DepthWalk.run method insns (labelPositions insns) (insns.size + 1) w
  pure w.deepest

end ClassCompiler
