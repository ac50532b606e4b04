import ClassCompiler.Jvm.Descriptor
import ClassCompiler.Jvm.Instruction
import ClassCompiler.Program.Error

/-!
# The instruction emitter

Builds the instruction list of one method.

* Constants take their shortest form: `ICONST_M1` … `ICONST_5`, `BIPUSH`,
  `SIPUSH`, then `LDC`; `LCONST_0/1`; `FCONST_0/1/2` and `DCONST_0/1` only for
  exactly those bits, so `-0.0` is loaded with `LDC`.
* Loads, stores and returns follow the kind of the type.
* Labels are numbered from 0 and placed once; `finish` refuses a jump to a
  label never placed.
* With line numbers on, a line marker is recorded whenever the line of the
  following code changes (line 0 never).
* Instructions can be inserted at a mark taken earlier, which is how a
  receiver is pushed below arguments compiled before the target was known.
-/

namespace ClassCompiler

/-- A method body under construction. -/
structure Emitter where
  code : Array Instruction
  bound : Array Bool
  lineNumbers : Bool
  currentLine : Option Nat
  deriving Inhabited

namespace Emitter

def new (lineNumbers : Bool) : Emitter := ⟨#[], #[], lineNumbers, none⟩

def push (e : Emitter) (i : Instruction) : Emitter := { e with code := e.code.push i }

def emit (e : Emitter) (op : Opcode) : Emitter := e.push (.simple op)

/-- Record that the following code comes from `line`. -/
def setLine (e : Emitter) (line : Nat) : Emitter :=
  if e.lineNumbers && line > 0 && e.currentLine != some line then
    { e.push (.line line) with currentLine := some line }
  else e

/-- The current position, for a later `insert`. -/
def mark (e : Emitter) : Nat := e.code.size

/-- Insert instructions at a position given by `mark`. -/
def insert (e : Emitter) (at_ : Nat) (is : List Instruction) : Emitter :=
  { e with code := e.code.extract 0 at_ ++ is.toArray ++ e.code.extract at_ e.code.size }

/-- Push an int in its shortest form. -/
def emitInt (e : Emitter) (v : Int32) : Emitter :=
  match v.toInt with
  | -1 => e.emit .iconstM1
  | 0 => e.emit .iconst0
  | 1 => e.emit .iconst1
  | 2 => e.emit .iconst2
  | 3 => e.emit .iconst3
  | 4 => e.emit .iconst4
  | 5 => e.emit .iconst5
  | n =>
    if -128 ≤ n ∧ n ≤ 127 then e.push (.immediate .bipush v)
    else if -32768 ≤ n ∧ n ≤ 32767 then e.push (.immediate .sipush v)
    else e.push (.ldc (.int v))

def emitLong (e : Emitter) (v : Int64) : Emitter :=
  match v.toInt with
  | 0 => e.emit .lconst0
  | 1 => e.emit .lconst1
  | _ => e.push (.ldc (.long v))

/-- Push a float given by its bits; only `+0.0`, `1.0` and `2.0` have a
    constant instruction. -/
def emitFloat (e : Emitter) (bits : UInt32) : Emitter :=
  if bits == 0 then e.emit .fconst0
  else if bits == 0x3f800000 then e.emit .fconst1
  else if bits == 0x40000000 then e.emit .fconst2
  else e.push (.ldc (.float bits))

def emitDouble (e : Emitter) (bits : UInt64) : Emitter :=
  if bits == 0 then e.emit .dconst0
  else if bits == 0x3ff0000000000000 then e.emit .dconst1
  else e.push (.ldc (.double bits))

def emitBool (e : Emitter) (b : Bool) : Emitter := e.emit (if b then .iconst1 else .iconst0)

def emitString (e : Emitter) (s : String) : Emitter := e.push (.ldc (.string s))

def load (e : Emitter) (t : Ty) (slot : Nat) : Emitter := e.push (.slot (Opcode.loadFor t.kind) slot)

def store (e : Emitter) (t : Ty) (slot : Nat) : Emitter := e.push (.slot (Opcode.storeFor t.kind) slot)

def emitReturn (e : Emitter) (t : Ty) : Emitter := e.emit (Opcode.returnFor t.kind)

/-- Drop a value of type `t`. -/
def pop (e : Emitter) (t : Ty) : Emitter :=
  match t.slotSize with
  | 0 => e
  | 1 => e.emit .pop
  | _ => e.emit .pop2

def classRef (e : Emitter) (op : Opcode) (name : String) : Emitter := e.push (.classRef op name)

/-- Allocate an array of `elem` whose length is on the stack. -/
def newArray (e : Emitter) (elem : Ty) : Emitter :=
  match Opcode.newarrayCode? elem with
  | some code => e.push (.immediate .newarray (Int32.ofNat code))
  | none => e.classRef .anewarray (elem.classOperand?.getD objectClass)

def field (e : Emitter) (op : Opcode) (owner name : String) (t : Ty) : Emitter :=
  e.push (.field op ⟨owner, name, t.descriptor⟩)

/-- The call of `owner.name` of type `mt`; an `INVOKEINTERFACE` names an
    interface method. -/
def invokeRef (op : Opcode) (owner name : String) (mt : MethodType) : Instruction :=
  .invoke op ⟨owner, name, mt.descriptor, op == .invokeinterface⟩

def invoke (e : Emitter) (op : Opcode) (owner name : String) (mt : MethodType) : Emitter :=
  e.push (invokeRef op owner name mt)

/-- A fresh label, not yet placed. -/
def newLabel (e : Emitter) : Nat × Emitter := (e.bound.size, { e with bound := e.bound.push false })

def isBound (e : Emitter) (l : Nat) : Bool := e.bound.getD l false

/-- Place a label at the current position, once. -/
def place (e : Emitter) (l : Nat) : Emitter :=
  if l < e.bound.size && !e.isBound l then
    { e.push (.label l) with bound := e.bound.setIfInBounds l true }
  else e

def jump (e : Emitter) (op : Opcode) (l : Nat) : Emitter := e.push (.jump op l)

/-- Whether control can reach the end: the last instruction or label, if any,
    falls through. -/
def reachableEnd (e : Emitter) : Bool :=
  match e.code.toList.reverse.find? (fun i => i.opcode?.isSome || i matches .label _) with
  | some i => i.fallsThrough
  | none => true

/-- The finished body; every jump must target a placed label. -/
def finish (e : Emitter) (maxLocals : Nat) : Except CompilationError Code :=
  match e.code.toList.find? (fun i => match i with
      | .jump _ l => !e.isBound l
      | _ => false) with
  | some (.jump _ l) => .error (.internal ("jump to unplaced label L" ++ toString l))
  | _ => .ok ⟨e.code, maxLocals⟩

end Emitter

end ClassCompiler
