import ClassCompiler.Jvm.Opcode
import ClassCompiler.Number.Shortest
import ClassCompiler.Text.Quoted

/-!
# Instructions

The symbolic instructions of a method body. Constants stay symbolic (the class
writer puts them into the constant pool), jumps name labels, and `label` and
`line` entries mark positions without producing code. Each instruction has a
one-line text for listings.

* `Constant`: a loadable constant; floats are kept as their bits;
* `Instruction.text`: the listing line;
* `Instruction.fallsThrough`: whether control can go on to the next entry.
-/

namespace ClassCompiler

/-- A constant loaded by `LDC`. Floats and doubles are kept as their bits. -/
inductive Constant where
  | int (v : Int32)
  | long (v : Int64)
  | float (bits : UInt32)
  | double (bits : UInt64)
  | string (s : String)
  deriving DecidableEq, Repr, Inhabited

namespace Constant

/-- Longs and doubles take two stack words and two pool entries. -/
def isWide : Constant → Bool
  | .long _ | .double _ => true
  | _ => false

/-- The listing text: `5`, `5L`, `2.5f`, `2.5d`, or the quoted string. -/
def text : Constant → String
  | .int v => toString v.toInt
  | .long v => toString v.toInt ++ "L"
  | .float b => BinaryFormat.single.decimalText b.toNat ++ "f"
  | .double b => BinaryFormat.double.decimalText b.toNat ++ "d"
  | .string s => Text.quoted s

end Constant

/-- A field named by its class, its name and its descriptor. -/
structure MemberRef where
  owner : String
  name : String
  descriptor : String
  deriving DecidableEq, Repr, Inhabited

/-- A method named by its class, its name and its descriptor, and whether the
    class is an interface. -/
structure MethodRef where
  owner : String
  name : String
  descriptor : String
  onInterface : Bool := false
  deriving DecidableEq, Repr, Inhabited

/-- One entry of a method body. -/
inductive Instruction where
  /-- An instruction without operand. -/
  | simple (op : Opcode)
  /-- An instruction with an immediate number (`BIPUSH`, `SIPUSH`, `NEWARRAY`). -/
  | immediate (op : Opcode) (v : Int32)
  /-- An instruction on a local slot. -/
  | slot (op : Opcode) (index : Nat)
  | ldc (c : Constant)
  /-- An instruction on a class (`NEW`, `CHECKCAST`, `ANEWARRAY`, ...). -/
  | classRef (op : Opcode) (name : String)
  | field (op : Opcode) (ref : MemberRef)
  | invoke (op : Opcode) (ref : MethodRef)
  | jump (op : Opcode) (target : Nat)
  /-- The position a label stands for; no code. -/
  | label (l : Nat)
  /-- The source line of the following code; no code. -/
  | line (n : Nat)
  deriving DecidableEq, Repr, Inhabited

namespace Instruction

/-- The operation an entry performs; labels and lines perform none. A wide
    constant is loaded by `LDC2_W`. -/
def opcode? : Instruction → Option Opcode
  | .simple op | .immediate op _ | .slot op _ | .classRef op _
  | .field op _ | .invoke op _ | .jump op _ => some op
  | .ldc c => some (if c.isWide then .ldc2W else .ldc)
  | .label _ | .line _ => none

/-- Whether control can go on to the next entry. -/
def fallsThrough (i : Instruction) : Bool :=
  match i.opcode? with
  | some op => !op.endsBlock
  | none => true

/-- The listing line of an entry. -/
def text : Instruction → String
  | .simple op => "    " ++ op.mnemonic
  | .immediate op v => "    " ++ op.mnemonic ++ " " ++ toString v.toInt
  | .slot op n => "    " ++ op.mnemonic ++ " " ++ toString n
  | .ldc c => "    LDC " ++ c.text
  | .classRef op name => "    " ++ op.mnemonic ++ " " ++ name
  | .field op m => "    " ++ op.mnemonic ++ " " ++ m.owner ++ "." ++ m.name ++ " : " ++ m.descriptor
  | .invoke op m => "    " ++ op.mnemonic ++ " " ++ m.owner ++ "." ++ m.name ++ m.descriptor
  | .jump op l => "    " ++ op.mnemonic ++ " L" ++ toString l
  | .label l => "  L" ++ toString l ++ ":"
  | .line n => "  LINE " ++ toString n

end Instruction

/-- A method body: its entries and the number of local slots it uses. -/
structure Code where
  instructions : Array Instruction
  maxLocals : Nat
  deriving Repr, Inhabited

namespace Code

/-- The listing of a body: the frame size, then one line per entry. -/
def text (c : Code) : String :=
  c.instructions.foldl (fun acc i => acc ++ i.text ++ "\n")
    ("  max_locals = " ++ toString c.maxLocals ++ "\n")

/-- The listing lines of the entries. -/
def lines (c : Code) : List String := c.instructions.toList.map Instruction.text

end Code

end ClassCompiler
