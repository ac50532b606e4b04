import ClassCompiler.Proofs.Machine.Value

/-!
# The reference machine

The stack machine the end-to-end tests run compiled classes on. A run is a
stack of frames, one per method being executed; each step executes one entry
of the code of the top frame (labels and line markers count as entries). A
call pushes a frame and a return pops it, handing its value to the caller;
methods of classes outside the program are run natively.

* `State.enter`: the frame of a call, its locals the receiver and the
  arguments (a wide one followed by `top`), then `top` up to the frame size;
* `exec`: one entry of the top frame, with the program counter already past
  it;
* `run`: at most `fuel` entries. A run that would execute one more stops with
  the error `step limit exceeded`; the tests give it `stepLimit`.

Everything the machine reports is an `Outcome`: the value returned, an error
with its message, or a crash of the machine itself.
-/

namespace ClassCompiler

/-- The method of a record with this name and descriptor. -/
def ClassRecord.method? (c : ClassRecord) (name descriptor : String) : Option MethodRecord :=
  c.methods.find? fun m => m.name == name && m.descriptor == descriptor

namespace Machine

/-- How many entries a run of the tests may execute. -/
def stepLimit : Nat := 10000000

/-- What the caller does with the result of a frame it started. -/
inductive Resume where
  /-- An invoke: push the value returned, if any. -/
  | push
  /-- A reflective constructor call: push the new object instead. -/
  | newObject (v : Value)

/-- A method being executed. -/
structure Frame where
  owner : String
  name : String
  code : Code
  /-- The next entry to execute. -/
  pc : Nat
  locals : Array Value
  /-- The operand stack, one word an entry, top first. -/
  stack : List Value
  resume : Resume

/-- The classes the machine runs, its heap, static fields and output. -/
structure State where
  classes : List ClassRecord
  heap : Array Object
  statics : String → String → Option Value
  out : String
  err : String

/-- How a run ends. -/
inductive Outcome where
  /-- The outermost frame returned, with `left` steps of the budget left. -/
  | returned (m : State) (result : Option Value) (left : Nat)
  | error (m : State) (msg : String)
  | crash (msg : String)

/-- What one step leads to. -/
inductive Next where
  | run (m : State) (frames : List Frame)
  /-- The outermost frame returned. -/
  | halt (m : State) (result : Option Value)

/-- What an invoke leads to: a value computed natively, or a frame to run. -/
inductive Effect where
  | value (result : Option Value) (m : State)
  | call (callee : Frame) (m : State)

/-- What one entry of the top frame leads to. -/
inductive Exec where
  | next (m : State) (f : Frame)
  /-- The frame returned. -/
  | ret (m : State) (result : Option Value)
  /-- The frame called a method of the program. -/
  | call (m : State) (f : Frame) (callee : Frame)

def fail {α : Type} (msg : String) : Except Fault α := .error (.error msg)

def crash {α : Type} (msg : String) : Except Fault α := .error (.crash msg)

/-! ### The operand stack -/

namespace Stack

/-- Push a value: a wide one as itself and then `top`. -/
def push (v : Value) (st : List Value) : List Value :=
  if v.isWide then .top :: v :: st else v :: st

def rawPop : List Value → Except Fault (Value × List Value)
  | [] => fail "VerifyError: stack underflow"
  | v :: st => .ok (v, st)

/-- Pop a value, both words of a wide one. -/
def pop (st : List Value) : Except Fault (Value × List Value) := do
  let (v, st) ← rawPop st
  if v = .top then rawPop st else pure (v, st)

def popInt (st : List Value) : Except Fault (Int32 × List Value) := do
  let (v, st) ← pop st
  return (← v.asInt, st)

def popLong (st : List Value) : Except Fault (Int64 × List Value) := do
  let (v, st) ← pop st
  return (← v.asLong, st)

def popFloat (st : List Value) : Except Fault (UInt32 × List Value) := do
  let (v, st) ← pop st
  return (← v.asFloat, st)

def popDouble (st : List Value) : Except Fault (UInt64 × List Value) := do
  let (v, st) ← pop st
  return (← v.asDouble, st)

/-- An array length: a non-negative int. -/
def popLen (st : List Value) : Except Fault (Nat × List Value) := do
  let (n, st) ← popInt st
  if n < 0 then fail ("NegativeArraySizeException: " ++ toString n.toInt) else pure (n.toNatClampNeg, st)

/-- Take the top `count` words and push them back in `order`, where `0` is the
    word that was on top. -/
def shuffle (count : Nat) (order : List Nat) (st : List Value) : Except Fault (List Value) :=
  if st.length < count then fail "VerifyError: stack underflow"
  else .ok ((order.map fun i => st.getD i .top).reverse ++ st.drop count)

end Stack

/-! ### Classes and objects -/

namespace State

/-- A machine for the classes of a program, with nothing allocated or printed. -/
def init (classes : List ClassRecord) : State := ⟨classes, #[], fun _ _ => none, "", ""⟩

/-- The class of a name; of two of the same name, the later one. -/
def classNamed? (m : State) (name : String) : Option ClassRecord :=
  m.classes.reverse.find? (·.name == name)

def knows (m : State) (name : String) : Bool := (m.classNamed? name).isSome

def object? (m : State) : Value → Option Object
  | .ref id => m.heap[id]?
  | _ => none

def alloc (m : State) (o : Object) : Value × State :=
  (.ref m.heap.size, { m with heap := m.heap.push o })

/-- The class of an instance. -/
def classOf? (m : State) (v : Value) : Option String :=
  match m.object? v with
  | some (.inst c _) => some c
  | _ => none

def string? (m : State) (v : Value) : Option String :=
  match m.object? v with
  | some (.str s) => some s
  | _ => none

def array? (m : State) (v : Value) : Option (Array Value) :=
  match m.object? v with
  | some (.array items) => some items
  | _ => none

/-- The chain of a class and its superclasses is never longer than the number
    of classes. -/
def chainFuel (m : State) : Nat := m.classes.length + 1

/-- The instance fields of a class and its superclasses, each with the default
    of its descriptor; a superclass's field overrides a subclass's of the same
    name. -/
def instanceFields (m : State) : Nat → Option String → (String → Option Value) → String → Option Value
  | 0, _, fs => fs
  | _, none, fs => fs
  | fuel + 1, some name, fs =>
    match m.classNamed? name with
    | none => fs
    | some r =>
      let fs := r.fields.foldl (fun fs f =>
        if f.access &&& Access.staticBit != 0 then fs
        else fun n => if n == f.name then some (defaultValue f.descriptor) else fs n) fs
      m.instanceFields fuel r.superclass fs

/-- A new instance of a class, its fields at their defaults. -/
def newInstance (m : State) (cls : String) : Value × State :=
  m.alloc (.inst cls (m.instanceFields m.chainFuel (some cls) fun _ => none))

/-- Whether a class is the target, or one of it and its superclasses in the
    program lists the target among its interfaces. -/
def subtypeWalk (m : State) (target : String) : Nat → Option String → Bool
  | 0, _ => false
  | _, none => false
  | fuel + 1, some name =>
    if name == target then true
    else match m.classNamed? name with
      | none => false
      | some r => r.interfaces.contains target || m.subtypeWalk target fuel r.superclass

def isSubtype (m : State) (cls target : String) : Bool := m.subtypeWalk target m.chainFuel (some cls)

/-- Whether a value may be treated as a class; classes outside the program
    always match. -/
def isInstance (m : State) (v : Value) (target : String) : Bool :=
  if !m.knows target then true
  else match m.object? v with
    | some (.inst c _) => m.isSubtype c target
    | _ => false

/-- The first class up from a class whose method of this name and descriptor
    has code. -/
def resolveWalk (m : State) (name descriptor : String) : Nat → Option String → Option String
  | 0, _ => none
  | _, none => none
  | fuel + 1, some c =>
    match m.classNamed? c with
    | none => none
    | some r =>
      if (r.method? name descriptor).any (·.code.isSome) then some c
      else m.resolveWalk name descriptor fuel r.superclass

def resolveVirtual (m : State) (cls name descriptor : String) : Option String :=
  m.resolveWalk name descriptor m.chainFuel (some cls)

/-- The frame of a call: the receiver and the arguments in the first locals, a
    wide argument followed by `top`, then `top` up to the frame size. -/
def enter (m : State) (owner name descriptor : String) (this : Option Value) (args : List Value)
    (resume : Resume) : Except Fault Frame := do
  let some cls := m.classNamed? owner | fail ("NoSuchMethodError: " ++ owner ++ "." ++ name ++ descriptor)
  let some mr := cls.method? name descriptor |
    fail ("NoSuchMethodError: " ++ owner ++ "." ++ name ++ descriptor)
  let some code := mr.code | fail ("AbstractMethodError: " ++ owner ++ "." ++ name ++ descriptor)
  let words := args.flatMap fun a => if a.isWide then [a, .top] else [a]
  let locals := (this.toList ++ words).toArray
  let locals := locals ++ Array.replicate (code.maxLocals - locals.size) .top
  return ⟨owner, name, code, 0, locals, [], resume⟩

/-- The text `print` writes for a value passed as a parameter of a descriptor. -/
def text (m : State) (descriptor : String) : Value → Except Fault String
  | .int v =>
    if descriptor == "Z" then .ok (if v != 0 then "true" else "false")
    else if descriptor == "C" then
      .ok (String.singleton ((charOfNat? v.toUInt32.toNat).getD (Char.ofNat 0xFFFD)))
    else .ok (toString v.toInt)
  | .long v => .ok (toString v.toInt)
  | .float b => .ok (Ieee.javaFloat (Ieee.widen b))
  | .double b => .ok (Ieee.javaFloat b)
  | .null => .ok "null"
  | .top => .ok "<top>"
  | .ref id =>
    let at_ := "@" ++ String.ofList (ClassCompiler.Text.hexDigits id)
    match m.heap[id]? with
    | some (.str s) => .ok s
    | some (.inst c _) => .ok (Ty.dotted c ++ at_)
    | some (.array _) => .ok ("[" ++ at_)
    | some (.classObj c) => .ok ("class " ++ Ty.dotted c)
    | some (.ctorObj c) => .ok ("constructor " ++ Ty.dotted c)
    | some (.printStream _) => .ok ("java.io.PrintStream" ++ at_)
    | none => crash "index out of bounds"

/-- The element at an index of an array. -/
def arrayLoad (m : State) (array : Value) (index : Int32) : Except Fault Value :=
  match m.array? array with
  | some items =>
    match (if index < 0 then none else items[index.toNatClampNeg]?) with
    | some v => .ok v
    | none => fail ("ArrayIndexOutOfBoundsException: " ++ toString index.toInt)
  | none => fail "NullPointerException: array load"

/-- Store at an index of an array. -/
def arrayStore (m : State) (array : Value) (index : Int32) (v : Value) : Except Fault State :=
  match array with
  | .ref id =>
    match m.heap[id]? with
    | some (.array items) =>
      if index < 0 ∨ items.size ≤ index.toNatClampNeg then
        fail ("ArrayIndexOutOfBoundsException: " ++ toString index.toInt)
      else .ok { m with heap := m.heap.set! id (.array (items.set! index.toNatClampNeg v)) }
    | some _ => fail "ArrayStoreException"
    | none => crash "index out of bounds"
  | _ => fail "NullPointerException: array store"

end State

/-! ### Instructions without operands -/

/-- An int operation: the wrapping arithmetic and the bitwise ones. -/
def intOp : Opcode → Int32 → Int32 → Int32
  | .iadd, a, b => a + b
  | .isub, a, b => a - b
  | .imul, a, b => a * b
  | .idiv, a, b => a / b
  | .irem, a, b => a % b
  | .iand, a, b => a &&& b
  | .ior, a, b => a ||| b
  | _, a, b => a ^^^ b

/-- A long operation, wrapping. -/
def longOp : Opcode → Int64 → Int64 → Int64
  | .ladd, a, b => a + b
  | .lsub, a, b => a - b
  | .lmul, a, b => a * b
  | .ldiv, a, b => a / b
  | _, a, b => a % b

def floatOp (op : Opcode) (a b : UInt32) : UInt32 :=
  match op with
  | .fadd => (Ieee.single a + Ieee.single b).toBits
  | .fsub => (Ieee.single a - Ieee.single b).toBits
  | .fmul => (Ieee.single a * Ieee.single b).toBits
  | .fdiv => (Ieee.single a / Ieee.single b).toBits
  | _ => (Ieee.remBits .single a.toNat b.toNat).toUInt32

def doubleOp (op : Opcode) (a b : UInt64) : UInt64 :=
  match op with
  | .dadd => (Ieee.double a + Ieee.double b).toBits
  | .dsub => (Ieee.double a - Ieee.double b).toBits
  | .dmul => (Ieee.double a * Ieee.double b).toBits
  | .ddiv => (Ieee.double a / Ieee.double b).toBits
  | _ => (Ieee.remBits .double a.toNat b.toNat).toUInt64

/-- An ordering as the int `-1`, `0` or `1`. -/
def Ordering.toInt32 : Ordering → Int32
  | .lt => -1
  | .eq => 0
  | .gt => 1

/-- What an instruction without operand leaves: the machine and the stack, or
    the value the method returns. -/
abbrev Simple := (State × List Value) ⊕ Option Value

/-- Pop an int, apply, push the result. -/
def convertInt (m : State) (st : List Value) (f : Int32 → Value) : Except Fault Simple := do
  let (v, st) ← Stack.popInt st
  return .inl (m, Stack.push (f v) st)

def simple (m : State) (st : List Value) (op : Opcode) : Except Fault Simple :=
  let next (v : Value) : Except Fault Simple := .ok (.inl (m, Stack.push v st))
  match op with
  | .nop => .ok (.inl (m, st))
  | .aconstNull => next .null
  | .iconstM1 => next (.int (-1))
  | .iconst0 => next (.int 0)
  | .iconst1 => next (.int 1)
  | .iconst2 => next (.int 2)
  | .iconst3 => next (.int 3)
  | .iconst4 => next (.int 4)
  | .iconst5 => next (.int 5)
  | .lconst0 => next (.long 0)
  | .lconst1 => next (.long 1)
  | .fconst0 => next (.float 0)
  | .fconst1 => next (.float 0x3f800000)
  | .fconst2 => next (.float 0x40000000)
  | .dconst0 => next (.double 0)
  | .dconst1 => next (.double 0x3ff0000000000000)
  | .iaload | .laload | .faload | .daload | .aaload | .baload | .caload | .saload => do
    let (index, st) ← Stack.popInt st
    let (array, st) ← Stack.pop st
    let v ← m.arrayLoad array index
    return .inl (m, Stack.push v st)
  | .iastore | .lastore | .fastore | .dastore | .aastore | .bastore | .castore | .sastore => do
    let (v, st) ← Stack.pop st
    let (index, st) ← Stack.popInt st
    let (array, st) ← Stack.pop st
    -- narrow elements are cut to their width before the array is looked at
    let v ← match op with
      | .bastore => v.asInt.map fun i => .int i.toInt8.toInt32
      | .castore => v.asInt.map fun i => .int (Int32.ofNat (i.toBitVec.toNat % 65536))
      | .sastore => v.asInt.map fun i => .int i.toInt16.toInt32
      | _ => pure v
    let m ← m.arrayStore array index v
    return .inl (m, st)
  | .arraylength => do
    let (array, st) ← Stack.pop st
    match m.array? array with
    | some items => return .inl (m, Stack.push (.int (Int32.ofNat items.size)) st)
    | none => fail "NullPointerException: arraylength"
  | .pop => do return .inl (m, (← Stack.rawPop st).2)
  | .pop2 => do return .inl (m, (← Stack.rawPop (← Stack.rawPop st).2).2)
  | .dup => do return .inl (m, ← Stack.shuffle 1 [0, 0] st)
  | .dupX1 => do return .inl (m, ← Stack.shuffle 2 [0, 1, 0] st)
  | .dupX2 => do return .inl (m, ← Stack.shuffle 3 [0, 2, 1, 0] st)
  | .dup2 => do return .inl (m, ← Stack.shuffle 2 [1, 0, 1, 0] st)
  | .dup2X1 => do return .inl (m, ← Stack.shuffle 3 [1, 0, 2, 1, 0] st)
  | .dup2X2 => do return .inl (m, ← Stack.shuffle 4 [1, 0, 3, 2, 1, 0] st)
  | .swap => do return .inl (m, ← Stack.shuffle 2 [0, 1] st)
  | .iadd | .isub | .imul | .idiv | .irem | .iand | .ior | .ixor => do
    let (b, st) ← Stack.popInt st
    let (a, st) ← Stack.popInt st
    if (op == .idiv || op == .irem) && b == 0 then fail "ArithmeticException: / by zero"
    else return .inl (m, Stack.push (.int (intOp op a b)) st)
  | .ladd | .lsub | .lmul | .ldiv | .lrem => do
    let (b, st) ← Stack.popLong st
    let (a, st) ← Stack.popLong st
    if (op == .ldiv || op == .lrem) && b == 0 then fail "ArithmeticException: / by zero"
    else return .inl (m, Stack.push (.long (longOp op a b)) st)
  | .fadd | .fsub | .fmul | .fdiv | .frem => do
    let (b, st) ← Stack.popFloat st
    let (a, st) ← Stack.popFloat st
    return .inl (m, Stack.push (.float (floatOp op a b)) st)
  | .dadd | .dsub | .dmul | .ddiv | .drem => do
    let (b, st) ← Stack.popDouble st
    let (a, st) ← Stack.popDouble st
    return .inl (m, Stack.push (.double (doubleOp op a b)) st)
  | .ineg => convertInt m st fun v => .int (-v)
  | .lneg => do
    let (v, st) ← Stack.popLong st
    return .inl (m, Stack.push (.long (-v)) st)
  | .fneg => do
    let (v, st) ← Stack.popFloat st
    return .inl (m, Stack.push (.float (v ^^^ 0x80000000)) st)
  | .dneg => do
    let (v, st) ← Stack.popDouble st
    return .inl (m, Stack.push (.double (v ^^^ 0x8000000000000000)) st)
  | .i2l => convertInt m st fun v => .long v.toInt64
  | .i2f => convertInt m st fun v => .float (Ieee.singleOfInt32 v)
  | .i2d => convertInt m st fun v => .double (Ieee.doubleOfInt32 v)
  | .i2b => convertInt m st fun v => .int v.toInt8.toInt32
  | .i2c => convertInt m st fun v => .int (Int32.ofNat (v.toBitVec.toNat % 65536))
  | .i2s => convertInt m st fun v => .int v.toInt16.toInt32
  | .l2i | .l2f | .l2d => do
    let (v, st) ← Stack.popLong st
    let r : Value := match op with
      | .l2i => .int v.toInt32
      | .l2f => .float (Ieee.singleOfInt64 v)
      | _ => .double (Ieee.doubleOfInt64 v)
    return .inl (m, Stack.push r st)
  | .f2i | .f2l | .f2d => do
    let (v, st) ← Stack.popFloat st
    let r : Value := match op with
      | .f2i => .int (Ieee.int32OfSingle v)
      | .f2l => .long (Ieee.int64OfSingle v)
      | _ => .double (Ieee.widen v)
    return .inl (m, Stack.push r st)
  | .d2i | .d2l | .d2f => do
    let (v, st) ← Stack.popDouble st
    let r : Value := match op with
      | .d2i => .int (Ieee.int32OfDouble v)
      | .d2l => .long (Ieee.int64OfDouble v)
      | _ => .float (Ieee.narrow v)
    return .inl (m, Stack.push r st)
  | .lcmp => do
    let (b, st) ← Stack.popLong st
    let (a, st) ← Stack.popLong st
    return .inl (m, Stack.push (.int (Ordering.toInt32 (compare a b))) st)
  | .fcmpl | .fcmpg => do
    let (b, st) ← Stack.popFloat st
    let (a, st) ← Stack.popFloat st
    let nan : Int32 := if op == .fcmpl then -1 else 1
    return .inl (m, Stack.push (.int ((Ieee.compare32 a b).elim nan Ordering.toInt32)) st)
  | .dcmpl | .dcmpg => do
    let (b, st) ← Stack.popDouble st
    let (a, st) ← Stack.popDouble st
    let nan : Int32 := if op == .dcmpl then -1 else 1
    return .inl (m, Stack.push (.int ((Ieee.compare64 a b).elim nan Ordering.toInt32)) st)
  | .ireturn | .lreturn | .freturn | .dreturn | .areturn => do
    return .inr (some (← Stack.pop st).1)
  | .returnVoid => .ok (.inr none)
  | other => fail ("VerifyError: " ++ other.mnemonic ++ " without operands")

/-! ### Jumps, classes and fields -/

/-- Whether a conditional jump on one int is taken. -/
def intTest (op : Opcode) (v : Int32) : Bool :=
  match op with
  | .ifeq => v == 0
  | .ifne => v != 0
  | .iflt => v < 0
  | .ifge => v ≥ 0
  | .ifgt => v > 0
  | _ => v ≤ 0

/-- Whether a conditional jump on two ints is taken. -/
def intCompare (op : Opcode) (a b : Int32) : Bool :=
  match op with
  | .ifIcmpeq => a == b
  | .ifIcmpne => a != b
  | .ifIcmplt => a < b
  | .ifIcmpge => a ≥ b
  | .ifIcmpgt => a > b
  | _ => a ≤ b

/-- Whether a jump is taken, and the stack without its operands. -/
def branch (op : Opcode) (st : List Value) : Except Fault (Bool × List Value) :=
  match op with
  | .goto => .ok (true, st)
  | .ifeq | .ifne | .iflt | .ifge | .ifgt | .ifle => do
    let (v, st) ← Stack.popInt st
    return (intTest op v, st)
  | .ifIcmpeq | .ifIcmpne | .ifIcmplt | .ifIcmpge | .ifIcmpgt | .ifIcmple => do
    let (b, st) ← Stack.popInt st
    let (a, st) ← Stack.popInt st
    return (intCompare op a b, st)
  | .ifAcmpeq | .ifAcmpne => do
    let (b, st) ← Stack.pop st
    let (a, st) ← Stack.pop st
    return (a.same b == (op == .ifAcmpeq), st)
  | .ifnull => do
    let (v, st) ← Stack.pop st
    return (v == .null, st)
  | .ifnonnull => do
    let (v, st) ← Stack.pop st
    return (v != .null, st)
  | other => fail ("VerifyError: " ++ other.mnemonic ++ " is not a branch")

/-- The entry a jump to a label goes to: the last one that binds it. -/
def labelAt? (l : Nat) : List Instruction → Option Nat
  | [] => none
  | i :: is =>
    match labelAt? l is with
    | some k => some (k + 1)
    | none => if i = .label l then some 0 else none

/-- An instruction on a class: allocate, or test a value against the class. -/
def typeOp (m : State) (op : Opcode) (cls : String) (st : List Value) :
    Except Fault (State × List Value) :=
  match op with
  | .newObject =>
    let (v, m) := m.newInstance cls
    .ok (m, Stack.push v st)
  | .anewarray => do
    let (n, st) ← Stack.popLen st
    let (v, m) := m.alloc (.array (Array.replicate n .null))
    return (m, Stack.push v st)
  | .checkcast => do
    let (v, st) ← Stack.pop st
    if v != .null && !m.isInstance v cls then
      fail ("ClassCastException: " ++ (m.classOf? v).getD "?" ++ " cannot be cast to " ++ cls)
    else return (m, Stack.push v st)
  | .instanceof => do
    let (v, st) ← Stack.pop st
    return (m, Stack.push (.int (if v != .null && m.isInstance v cls then 1 else 0)) st)
  | other => fail ("VerifyError: " ++ other.mnemonic ++ " with a class operand")

/-- The value of a field of an instance. -/
def State.field? (m : State) (v : Value) (name : String) : Option Value :=
  match m.object? v with
  | some (.inst _ fields) => fields name
  | _ => none

/-- Field access. The static fields of the platform's `System` are its print
    streams; every other static field starts at its default. -/
def fieldOp (m : State) (op : Opcode) (r : MemberRef) (st : List Value) :
    Except Fault (State × List Value) :=
  match op with
  | .getstatic =>
    if r.owner == "java/lang/System" then
      let (v, m) := m.alloc (.printStream (r.name == "err"))
      .ok (m, Stack.push v st)
    else .ok (m, Stack.push ((m.statics r.owner r.name).getD (defaultValue r.descriptor)) st)
  | .putstatic => do
    let (v, st) ← Stack.pop st
    let statics o n := if o == r.owner && n == r.name then some v else m.statics o n
    return ({ m with statics }, st)
  | .getfield => do
    let (target, st) ← Stack.pop st
    match m.field? target r.name with
    | some v => return (m, Stack.push v st)
    | none => fail ("NullPointerException: getfield " ++ r.name)
  | _ => do
    let (v, st) ← Stack.pop st
    let (target, st) ← Stack.pop st
    match target with
    | .ref id =>
      match m.heap[id]? with
      | some (.inst c fields) =>
        let fields n := if n == r.name then some v else fields n
        return ({ m with heap := m.heap.set! id (.inst c fields) }, st)
      | some _ => fail ("IncompatibleClassChangeError: putfield " ++ r.name)
      | none => crash "index out of bounds"
    | _ => fail ("NullPointerException: putfield " ++ r.name)

/-! ### The platform library -/

/-- The argument at an index; the machine takes its presence for granted. -/
def argAt (args : List Value) (i : Nat) : Except Fault Value :=
  match args[i]? with
  | some v => .ok v
  | none => crash "index out of bounds"

/-- A new string object. -/
def State.newString (m : State) (s : String) : Value × State := m.alloc (.str s)

/-- The static methods of the platform: `Math.abs`, `max` and `min`, the
    conversions of `Integer` and `String`, and `Class.forName`. -/
def nativeStatic (m : State) (r : MethodRef) (args : List Value) :
    Except Fault (Option Value × State) := do
  let str (s : String) : Option Value × State := let (v, m) := m.newString s; (some v, m)
  match r.owner, r.name with
  | "java/lang/Math", "abs" =>
    match ← argAt args 0 with
    | .int v => return (some (.int (if v < 0 then -v else v)), m)
    | .long v => return (some (.long (if v < 0 then -v else v)), m)
    | .double b => return (some (.double (b &&& 0x7fffffffffffffff)), m)
    | other => fail ("Math.abs(" ++ other.debug ++ ")")
  | "java/lang/Math", "max" =>
    let a ← (← argAt args 0).asInt
    let b ← (← argAt args 1).asInt
    return (some (.int (if a ≤ b then b else a)), m)
  | "java/lang/Math", "min" =>
    let a ← (← argAt args 0).asInt
    let b ← (← argAt args 1).asInt
    return (some (.int (if a ≤ b then a else b)), m)
  | "java/lang/Integer", "toString" =>
    return str (toString (← (← argAt args 0).asInt).toInt)
  | "java/lang/Integer", "parseInt" =>
    let some text := m.string? (← argAt args 0) | fail "NumberFormatException: null"
    match Text.parseInt32 (Text.trim text.toList) with
    | some v => return (some (.int v), m)
    | none => fail ("NumberFormatException: For input string: \"" ++ text ++ "\"")
  | "java/lang/String", "valueOf" =>
    return str (← m.text (paramDescriptor r.descriptor) (← argAt args 0))
  | "java/lang/Class", "forName" =>
    let some binary := m.string? (← argAt args 0) | fail "NullPointerException: forName"
    let internal := Ty.slashed binary
    if !m.knows internal then fail ("ClassNotFoundException: " ++ binary)
    else
      let (v, m) := m.alloc (.classObj internal)
      return (some v, m)
  | _, _ => fail ("UnsatisfiedLinkError: " ++ r.owner ++ "." ++ r.name ++ r.descriptor)

/-- The number of parameters a descriptor names, if it can be read. -/
def paramCount? (descriptor : String) : Option Nat :=
  match MethodType.ofDescriptor descriptor with
  | .ok t => some t.params.length
  | .error _ => none

/-- The instance methods of the platform, on print streams, strings, classes
    and constructors, and the methods every object has. A reflective
    constructor call starts the constructor's frame. -/
def nativeVirtual (m : State) (r : MethodRef) (receiver : Value) (args : List Value) :
    Except Fault Effect := do
  let .ref id := receiver | fail ("NullPointerException: " ++ r.name)
  let some obj := m.heap[id]? | crash "index out of bounds"
  let value (v : Value) (m : State) : Except Fault Effect := .ok (.value (some v) m)
  let str (s : String) : Except Fault Effect := let (v, m) := m.newString s; value v m
  match obj, r.name with
  | .printStream err, "println" | .printStream err, "print" =>
    let text ← match args.head? with
      | some a => m.text (paramDescriptor r.descriptor) a
      | none => pure ""
    let text := if r.name == "println" then text.push '\n' else text
    return .value none (if err then { m with err := m.err ++ text } else { m with out := m.out ++ text })
  | .str s, "length" => value (.int (Int32.ofNat (Text.utf16 s).length)) m
  | .str s, "isEmpty" => value (.int (if s.isEmpty then 1 else 0)) m
  | .str s, "charAt" =>
    let index ← (← argAt args 0).asInt
    match (if index < 0 then none else (Text.utf16 s)[index.toNatClampNeg]?) with
    | some u => value (.int (Int32.ofNat u)) m
    | none => fail ("StringIndexOutOfBoundsException: " ++ toString index.toInt)
  | .str s, "concat" =>
    let some other := m.string? (← argAt args 0) | fail "NullPointerException: concat"
    str (s ++ other)
  | .str s, "replace" =>
    let a ← argAt args 0
    let b ← argAt args 1
    match a, b with
    | .int c, .int d =>
      let c := (charOfNat? c.toUInt32.toNat).getD (Char.ofNat 0)
      let d := (charOfNat? d.toUInt32.toNat).getD (Char.ofNat 0)
      str (String.ofList (Text.replaceAll [c] [d] s.toList))
    | a, b =>
      let some a := m.string? a | fail "NullPointerException: replace"
      let some b := m.string? b | fail "NullPointerException: replace"
      str (String.ofList (Text.replaceAll a.toList b.toList s.toList))
  | .str _, "toString" => value receiver m
  | .str s, "equals" => value (.int (if m.string? (← argAt args 0) == some s then 1 else 0)) m
  | .str s, "hashCode" => value (.int (Text.hash s)) m
  | .classObj c, "getName" => str (Ty.dotted c)
  | .classObj c, "getDeclaredConstructor" =>
    let (v, m) := m.alloc (.ctorObj c)
    value v m
  | .ctorObj c, "newInstance" =>
    let some params := m.array? (← argAt args 0) | fail "NullPointerException: newInstance"
    let ctor := (m.classNamed? c).bind fun cls => cls.methods.find? fun mr =>
      mr.name == "<init>" && paramCount? mr.descriptor == some params.size
    let some ctor := ctor | fail ("NoSuchMethodException: " ++ c ++ ".<init>")
    let (inst, m) := m.newInstance c
    let callee ← m.enter c "<init>" ctor.descriptor (some inst) params.toList (.newObject inst)
    return .call callee m
  | _, "getClass" =>
    let cls := match obj with
      | .inst c _ => c
      | .str _ => "java/lang/String"
      | _ => "java/lang/Object"
    let (v, m) := m.alloc (.classObj cls)
    value v m
  | _, "hashCode" => value (.int (Int32.ofNat id)) m
  | _, "equals" => value (.int (if (← argAt args 0).same receiver then 1 else 0)) m
  | _, "toString" => str (← m.text "Ljava/lang/Object;" receiver)
  | _, _ => fail ("NoSuchMethodError: " ++ r.owner ++ "." ++ r.name ++ r.descriptor)

/-! ### Calls -/

/-- A call: the frame of a method of the program, or a method of the platform
    run at once. Every instance call on `null` fails before anything runs. -/
def invoke (m : State) (op : Opcode) (r : MethodRef) (receiver : Option Value)
    (args : List Value) : Except Fault Effect :=
  let call (owner : String) (this : Option Value) : Except Fault Effect := do
    return .call (← m.enter owner r.name r.descriptor this args .push) m
  match op, receiver with
  | .invokestatic, _ =>
    if m.knows r.owner then call r.owner none
    else do
      let (v, m) ← nativeStatic m r args
      return .value v m
  | _, none | _, some .null => fail ("NullPointerException: " ++ r.owner ++ "." ++ r.name)
  | .invokespecial, some recv =>
    if m.knows r.owner then call r.owner (some recv)
    else if r.name == "<init>" then .ok (.value none m)
    else nativeVirtual m r recv args
  | _, some recv =>
    match (m.classOf? recv).bind fun c => m.resolveVirtual c r.name r.descriptor with
    | some owner => call owner (some recv)
    | none => nativeVirtual m r recv args

/-- Pop the arguments of a descriptor, the last on top, and the receiver of an
    instance call. -/
def popArgs (op : Opcode) (descriptor : String) (st : List Value) :
    Except Fault (Option Value × List Value × List Value) := do
  let t ← match MethodType.ofDescriptor descriptor with
    | .ok t => pure t
    | .error e => fail e.message
  let (args, st) ← t.params.foldlM (fun (acc : List Value × List Value) _ => do
    let (v, st) ← Stack.pop acc.2
    return (v :: acc.1, st)) ([], st)
  if op == .invokestatic then return (none, args, st)
  else
    let (recv, st) ← Stack.pop st
    return (some recv, args, st)

/-! ### Steps and runs -/

/-- The value a constant pushes; a string constant is a new string object. -/
def State.constant (m : State) : Constant → Value × State
  | .int v => (.int v, m)
  | .long v => (.long v, m)
  | .float b => (.float b, m)
  | .double b => (.double b, m)
  | .string s => m.newString s

/-- Push onto the operand stack of a frame. -/
def Frame.push (f : Frame) (v : Value) : Frame := { f with stack := Stack.push v f.stack }

/-- Execute one entry in a frame whose program counter is already past it. -/
def exec (m : State) (f : Frame) : Instruction → Except Fault Exec
  | .label _ | .line _ => .ok (.next m f)
  | .simple op => do
    match ← simple m f.stack op with
    | .inl (m, st) => return .next m { f with stack := st }
    | .inr v => return .ret m v
  | .immediate .newarray code => do
    let (n, st) ← Stack.popLen f.stack
    let (v, m) := m.alloc (.array (Array.replicate n (newarrayDefault code)))
    return .next m ({ f with stack := st }.push v)
  | .immediate _ v => .ok (.next m (f.push (.int v)))
  | .slot op i =>
    match op with
    | .iload | .lload | .fload | .dload | .aload =>
      match f.locals[i]? with
      | some v => .ok (.next m (f.push v))
      | none => crash "index out of bounds"
    | _ => do
      let (v, st) ← Stack.pop f.stack
      if i < f.locals.size then return .next m { f with stack := st, locals := f.locals.set! i v }
      else crash "index out of bounds"
  | .ldc c =>
    let (v, m) := m.constant c
    .ok (.next m (f.push v))
  | .classRef op cls => do
    let (m, st) ← typeOp m op cls f.stack
    return .next m { f with stack := st }
  | .field op r => do
    let (m, st) ← fieldOp m op r f.stack
    return .next m { f with stack := st }
  | .invoke op r => do
    let (recv, args, st) ← popArgs op r.descriptor f.stack
    let f := { f with stack := st }
    match ← invoke m op r recv args with
    | .value none m => return .next m f
    | .value (some v) m => return .next m (f.push v)
    | .call callee m => return .call m f callee
  | .jump op l => do
    let (taken, st) ← branch op f.stack
    let f := { f with stack := st }
    if taken then
      match labelAt? l f.code.instructions.toList with
      | some pc => return .next m { f with pc }
      | none => fail ("VerifyError: unbound label L" ++ toString l)
    else return .next m f

/-- The caller once a frame it started has returned. -/
def Frame.resumeWith (f : Frame) : Resume → Option Value → Frame
  | .newObject o, _ => f.push o
  | .push, some v => f.push v
  | .push, none => f

/-- One step: execute an entry of the top frame, and hand the result of a
    frame that returns to its caller. -/
def advance (m : State) (f : Frame) (callers : List Frame) (i : Instruction) : Except Fault Next := do
  match ← exec m { f with pc := f.pc + 1 } i with
  | .next m f => return .run m (f :: callers)
  | .call m f callee => return .run m (callee :: f :: callers)
  | .ret m v =>
    match callers with
    | [] => return .halt m v
    | c :: cs => return .run m (c.resumeWith f.resume v :: cs)

/-- Run with a budget of `fuel` steps. The entry is fetched before the budget
    is looked at, so a frame that runs off its code says so even with no step
    left. -/
def run : Nat → State → List Frame → Outcome
  | _, m, [] => .returned m none 0
  | fuel, m, f :: callers =>
    match f.code.instructions[f.pc]? with
    | none => .error m ("VerifyError: " ++ f.owner ++ "." ++ f.name ++ " fell off the end of its code")
    | some i =>
      match fuel with
      | 0 => .error m "step limit exceeded"
      | fuel + 1 =>
        match advance m f callers i with
        | .error (.error msg) => .error m msg
        | .error (.crash msg) => .crash msg
        | .ok (.run m frames) => run fuel m frames
        | .ok (.halt m v) => .returned m v fuel

/-! ### Entry points -/

/-- Call a method of the program with a budget of steps. -/
def call (fuel : Nat) (m : State) (owner name descriptor : String) (this : Option Value)
    (args : List Value) : Outcome :=
  match m.enter owner name descriptor this args .push with
  | .ok f => run fuel m [f]
  | .error (.error msg) => .error m msg
  | .error (.crash msg) => .crash msg

/-- The descriptor of the first method of a name in a class. -/
def State.descriptorNamed? (m : State) (cls name : String) : Option String :=
  ((m.classNamed? cls).bind fun c => c.methods.find? (·.name == name)).map (·.descriptor)

/-- Call the first static method of a name in a class. -/
def runStatic (fuel : Nat) (m : State) (cls method : String) (args : List Value) : Outcome :=
  match m.descriptorNamed? cls method with
  | some d => call fuel m cls method d none args
  | none => .error m ("NoSuchMethodError: " ++ cls ++ "." ++ method)

/-- Call the first method of a name of the class of an instance. -/
def runInstance (fuel : Nat) (m : State) (this : Value) (method : String) (args : List Value) :
    Outcome :=
  match m.classOf? this with
  | none => .error m "NullPointerException"
  | some cls =>
    match m.descriptorNamed? cls method with
    | some d => call fuel m cls method d (some this) args
    | none => .error m ("NoSuchMethodError: " ++ cls ++ "." ++ method)

/-- Run a constructor on a new instance and return the instance. -/
def Outcome.withResult (o : Outcome) (v : Value) : Outcome :=
  match o with
  | .returned m _ left => .returned m (some v) left
  | o => o

/-- Allocate an instance and run the constructor taking the arguments and then
    the marker parameter, which is given `null`. -/
def construct (fuel : Nat) (m : State) (cls : String) (args : List Value) : Outcome :=
  let ctor := (m.classNamed? cls).bind fun c => c.methods.find? fun mr =>
    mr.name == "<init>" && paramCount? mr.descriptor == some (args.length + 1)
  match ctor with
  | none => .error m ("NoSuchMethodError: " ++ cls ++ ".<init>")
  | some ctor =>
    let (this, m) := m.newInstance cls
    (call fuel m cls "<init>" ctor.descriptor (some this) (args ++ [.null])).withResult this

/-- Instantiate a trait adapter around a value. -/
def constructAdapter (fuel : Nat) (m : State) (adapter : String) (wrapped : Value) : Outcome :=
  match m.descriptorNamed? adapter "<init>" with
  | none => .error m ("NoSuchMethodError: " ++ adapter ++ ".<init>")
  | some d =>
    let (this, m) := m.newInstance adapter
    (call fuel m adapter "<init>" d (some this) [wrapped]).withResult this

end Machine

end ClassCompiler
