import ClassCompiler.ClassFile.Assemble
import ClassCompiler.Jvm.ClassRecord

/-!
# Writing class files

A class record as the bytes of a class file of a given major version. The
constant pool fills in the order the parts are written: the class, its
superclass and interfaces, each field's name and descriptor, each method's name
and descriptor followed by its code operands, `Code` and, when the method has
line entries, `LineNumberTable`; `SourceFile` and the file name come last.
-/

namespace ClassCompiler

/-- The major version written when none is asked for. -/
def defaultMajorVersion : Nat := 49

/-- A table of `count` entries must have at most 65535. -/
def tableCount (what : String) (count : Nat) : Except EmitError Nat :=
  if count > 65535 then .error (.tooMany what count) else .ok count

/-- The bytes of a field. -/
def writeField (pool : Pool) (out : Array UInt8) (f : FieldRecord) :
    Except EmitError (Array UInt8 × Pool) := do
  let (n, pool) ← pool.utf8 f.name
  let (d, pool) ← pool.utf8 f.descriptor
  pure (Bytes.u16 (Bytes.u16 (Bytes.u16 (Bytes.u16 out f.access) n) d) 0, pool)

/-- The bytes of a method of class `cls`: flags, name, descriptor and, with a
    body, its `Code` attribute. -/
def writeMethod (cls : String) (pool : Pool) (out : Array UInt8) (m : MethodRecord) :
    Except EmitError (Array UInt8 × Pool) := do
  let (n, pool) ← pool.utf8 m.name
  let (d, pool) ← pool.utf8 m.descriptor
  let out := Bytes.u16 (Bytes.u16 (Bytes.u16 out m.access) n) d
  match m.code with
  | none => pure (Bytes.u16 out 0, pool)
  | some code =>
    let (asm, pool) ← assemble (cls ++ "." ++ m.name ++ m.descriptor) code pool
    let (codeName, pool) ← pool.utf8 "Code"
    let entries := asm.lineNumbers.size
    let tableLen := if entries = 0 then 0 else 6 + 2 + 4 * entries
    let attrLen := 2 + 2 + 4 + asm.bytes.size + 2 + 2 + tableLen
    let out := Bytes.u16 (Bytes.u16 out 1) codeName
    let out := Bytes.u32 out attrLen
    let out := Bytes.u16 (Bytes.u16 out asm.maxStack) asm.maxLocals
    let out := Bytes.u32 out asm.bytes.size ++ asm.bytes
    let out := Bytes.u16 out 0
    if entries = 0 then pure (Bytes.u16 out 0, pool)
    else
      let (tableName, pool) ← pool.utf8 "LineNumberTable"
      let count ← tableCount "line number entries" entries
      let out := Bytes.u32 (Bytes.u16 (Bytes.u16 out 1) tableName) (2 + 4 * count)
      let out := asm.lineNumbers.foldl (fun o (pc, line) => Bytes.u16 (Bytes.u16 o pc) line)
        (Bytes.u16 out count)
      pure (out, pool)

/-- Run a writing step over a list, threading the output and the pool. -/
def writeAll {α : Type} (step : Pool → Array UInt8 → α → Except EmitError (Array UInt8 × Pool))
    (pool : Pool) (out : Array UInt8) : List α → Except EmitError (Array UInt8 × Pool)
  | [] => .ok (out, pool)
  | x :: xs => do
    let (out, pool) ← step pool out x
    writeAll step pool out xs

/-- The class file of a record. -/
def ClassRecord.write (c : ClassRecord) (major : Nat) :
    Except EmitError (Array UInt8) := do
  let pool : Pool := {}
  let (this, pool) ← pool.classRef c.name
  let body := Bytes.u16 (Bytes.u16 #[] c.access) this
  let (body, pool) ← match c.superclass with
    | some s => do
      let (i, pool) ← pool.classRef s
      pure (Bytes.u16 body i, pool)
    | none => pure (Bytes.u16 body 0, pool)
  let n ← tableCount "interfaces" c.interfaces.length
  let (body, pool) ← writeAll (fun pool out name => do
      let (i, pool) ← pool.classRef name
      pure (Bytes.u16 out i, pool)) pool (Bytes.u16 body n) c.interfaces
  let n ← tableCount "fields" c.fields.length
  let (body, pool) ← writeAll writeField pool (Bytes.u16 body n) c.fields
  let n ← tableCount "methods" c.methods.length
  let (body, pool) ← writeAll (writeMethod c.name) pool (Bytes.u16 body n) c.methods
  let (body, pool) ← match c.sourceFile with
    | some file => do
      let (attr, pool) ← pool.utf8 "SourceFile"
      let (f, pool) ← pool.utf8 file
      pure (Bytes.u16 (Bytes.u32 (Bytes.u16 (Bytes.u16 body 1) attr) 2) f, pool)
    | none => pure (Bytes.u16 body 0, pool)
  let header := Bytes.u16 (Bytes.u16 (Bytes.u32 #[] 0xCAFEBABE) 0) major
  pure (pool.bytes header ++ body)

end ClassCompiler
