import Std.Data.HashMap
import ClassCompiler.ClassFile.Error
import ClassCompiler.ClassFile.Bytes
import ClassCompiler.Jvm.Instruction
import ClassCompiler.Text.ModifiedUtf8

/-!
# The constant pool

The table of constants a class file refers to by index. Entries are shared:
adding an entry equal to one already present gives the old index. Floats and
doubles are equal when both are NaN or when their values are equal, so `0.0`
and `-0.0` share the entry of whichever came first. Longs and doubles take two
indexes. Indexes start at 1 and the next free index must stay below 65536.
-/

namespace ClassCompiler

/-- An entry of the constant pool; references to other entries are indexes. -/
inductive PoolEntry where
  | utf8 (s : String)
  | integer (v : Int32)
  | float (bits : UInt32)
  | long (v : Int64)
  | double (bits : UInt64)
  | classRef (name : Nat)
  | string (utf8 : Nat)
  | fieldRef (cls nameType : Nat)
  | methodRef (cls nameType : Nat)
  | interfaceMethodRef (cls nameType : Nat)
  | nameAndType (name descriptor : Nat)
  deriving DecidableEq, Hashable, Repr, Inhabited

namespace PoolEntry

/-- Longs and doubles take two indexes. -/
def isWide : PoolEntry → Bool
  | .long _ | .double _ => true
  | _ => false

/-- The entry an entry is shared with: all NaNs are one, and so are the zeros. -/
def key : PoolEntry → PoolEntry
  | .float b =>
    if BinaryFormat.single.isNaN b.toNat then .float 0x7fc00000
    else if BinaryFormat.single.isZero b.toNat then .float 0
    else .float b
  | .double b =>
    if BinaryFormat.double.isNaN b.toNat then .double 0x7ff8000000000000
    else if BinaryFormat.double.isZero b.toNat then .double 0
    else .double b
  | e => e

/-- The bytes of an entry: its tag, then its contents. -/
def bytes (out : Array UInt8) : PoolEntry → Array UInt8
  | .utf8 s =>
    let bs := Text.modifiedUtf8 s
    Bytes.u16 (out.push 1) bs.length ++ bs.toArray
  | .integer v => Bytes.signed (out.push 3) 4 v.toInt
  | .float b => Bytes.u32 (out.push 4) b.toNat
  | .long v => Bytes.signed (out.push 5) 8 v.toInt
  | .double b => Bytes.u64 (out.push 6) b.toNat
  | .classRef n => Bytes.u16 (out.push 7) n
  | .string n => Bytes.u16 (out.push 8) n
  | .fieldRef c nt => Bytes.u16 (Bytes.u16 (out.push 9) c) nt
  | .methodRef c nt => Bytes.u16 (Bytes.u16 (out.push 10) c) nt
  | .interfaceMethodRef c nt => Bytes.u16 (Bytes.u16 (out.push 11) c) nt
  | .nameAndType n d => Bytes.u16 (Bytes.u16 (out.push 12) n) d

end PoolEntry

/-- A constant pool being filled: its entries in order, the index of each
    shared entry, and the next free index. -/
structure Pool where
  entries : Array PoolEntry := #[]
  index : Std.HashMap PoolEntry Nat := {}
  next : Nat := 1

namespace Pool

/-- Add an entry, or find the index of its equal. -/
def add (p : Pool) (e : PoolEntry) : Except EmitError (Nat × Pool) :=
  match p.index.get? e.key with
  | some i => .ok (i, p)
  | none =>
    let width := if e.isWide then 2 else 1
    if p.next + width > 65535 then .error .poolOverflow
    else .ok (p.next, { entries := p.entries.push e, index := p.index.insert e.key p.next,
                        next := p.next + width })

/-- Add a string of modified UTF-8 bytes; at most 65535 bytes fit. -/
def utf8 (p : Pool) (s : String) : Except EmitError (Nat × Pool) :=
  let n := Text.modifiedUtf8Length s
  if n > 65535 then .error (.constantTooLong n) else p.add (.utf8 s)

/-- Add a class by its internal name. -/
def classRef (p : Pool) (name : String) : Except EmitError (Nat × Pool) := do
  let (n, p) ← p.utf8 name
  p.add (.classRef n)

/-- Add a name and a descriptor. -/
def nameAndType (p : Pool) (name descriptor : String) : Except EmitError (Nat × Pool) := do
  let (n, p) ← p.utf8 name
  let (d, p) ← p.utf8 descriptor
  p.add (.nameAndType n d)

/-- Add a field reference. -/
def fieldRef (p : Pool) (m : MemberRef) : Except EmitError (Nat × Pool) := do
  let (c, p) ← p.classRef m.owner
  let (nt, p) ← p.nameAndType m.name m.descriptor
  p.add (.fieldRef c nt)

/-- Add a method reference, of an interface or of a class. -/
def methodRef (p : Pool) (m : MethodRef) : Except EmitError (Nat × Pool) := do
  let (c, p) ← p.classRef m.owner
  let (nt, p) ← p.nameAndType m.name m.descriptor
  if m.onInterface then p.add (.interfaceMethodRef c nt) else p.add (.methodRef c nt)

/-- Add a loadable constant. -/
def constant (p : Pool) : Constant → Except EmitError (Nat × Pool)
  | .int v => p.add (.integer v)
  | .long v => p.add (.long v)
  | .float b => p.add (.float b)
  | .double b => p.add (.double b)
  | .string s => do
    let (u, p) ← p.utf8 s
    p.add (.string u)

/-- The pool's bytes: the next free index as the count, then the entries. -/
def bytes (p : Pool) (out : Array UInt8) : Array UInt8 :=
  p.entries.foldl PoolEntry.bytes (Bytes.u16 out p.next)

end Pool

end ClassCompiler
