import ClassCompiler.Codegen.Context
import ClassCompiler.Codegen.Rules

/-!
# Expressions

Compiles an expression to instructions that leave its value on the stack, and
gives its static type. A void call or an assignment leaves nothing (type
`void`); a type name used as a receiver leaves nothing either (type
`type C`).

* A bare name is, in order: a local variable, `this`, a field of the class
  whose fields are in scope, a known class.
* A receiver that names a class (`System`, `java.lang.System`, an alias)
  makes that one step static: `GETSTATIC`, `INVOKESTATIC`.
* Calls choose the first declared method whose parameters fit the argument
  types, looking through the superclasses. A struct whose own methods do not
  fit is tried through the traits it implements, in impl order, and wrapped in
  the trait's adapter. Arguments are compiled before the target is known, so
  what must lie below them (the implicit `this`, the adapter, a `POP` of a
  receiver whose method is static) is inserted afterwards at a mark.
* Operators follow `Rules`. Comparisons leave 0 or 1 through two labels.
* `cast<T>(e)` converts numbers, checks class casts with `CHECKCAST`, and
  turns a reference into a trait value by wrapping it in an adapter, found at
  run time by reflection or, with static casts, chosen at compile time.
* `new T(args)` allocates a struct or module and calls the constructor that
  fits the arguments, passing `null` for the marker.
* `[T][e₀, …]` evaluates the elements left to right and stores them, from the
  last, into the new array below them on the stack.
-/

namespace ClassCompiler

open Syntax

/-- What a member access is applied to: a class (nothing on the stack) or a
    value of a type. -/
inductive Receiver where
  | static (owner : String)
  | value (t : Ty)

/-- Where an assignment stores. -/
inductive LValue where
  /-- A local slot. -/
  | local (slot : Nat) (ty : Ty)
  /-- A field; its receiver is on the stack unless it is static. -/
  | field (owner name : String) (ty : Ty) (isStatic : Bool)
  /-- An array element; the array and the index are on the stack. -/
  | element (ty : Ty)

def LValue.ty : LValue → Ty
  | .local _ t | .field _ _ t _ | .element t => t

namespace Gen

/-- Push a literal. `null` has the type `null`, which fits any reference. -/
def literal : Literal → Gen Ty
  | .int v => do out (·.emitInt v); return .int
  | .long v => do out (·.emitLong v); return .long
  | .float b => do out (·.emitFloat b); return .float
  | .double b => do out (·.emitDouble b); return .double
  | .bool b => do out (·.emitBool b); return .bool
  | .string s => do out (·.emitString s); return Ty.string
  | .null => do out (·.emit .aconstNull); return .null

/-- Push what the source calls `this`: the receiver, or in an impl method the
    struct it wraps. -/
def pushThis (span : Span) : Gen Ty := do
  let c ← read
  if c.isStatic then fail (.thisInStaticContext span)
  let t := c.thisType
  out (·.load Ty.object 0)
  if c.adapter?.isSome then out (·.field .getfield c.owner.name wrappedField t)
  return t

/-- Whether a bare name stands for a value: a local, `this` or a field. -/
def isValueName (name : String) : Gen Bool := do
  let c ← read
  return ((← get).scope.lookup? name).isSome || name == "this" ||
    (c.table.findField? c.fieldScope.name name).isSome

/-- A bare name as a value. -/
def identifier (id : Ident) : Gen Ty := do
  let c ← read
  match (← get).scope.lookup? id.name with
  | some v =>
    out (·.load v.ty v.slot)
    return v.ty
  | none =>
  if id.name == "this" then pushThis id.span
  else match c.table.findField? c.fieldScope.name id.name with
  | some (d, f) =>
    if f.isStatic then out (·.field .getstatic d.name id.name f.ty)
    else
      let _ ← pushThis id.span
      out (·.field .getfield d.name id.name f.ty)
    return f.ty
  | none =>
  match c.resolver.lookupType? id.name with
  | some n => return .typeRef (.obj n)
  | none => fail (.unresolvedName id.name id.span)

/-- The dotted spelling of a chain of names whose root is not a value. -/
def typePath : Expr → Gen (Option String)
  | .ident id => do return if ← isValueName id.name then none else some id.name
  | .field obj name _ => do return (← typePath obj).map (· ++ "." ++ name.name)
  | _ => pure none

/-- The class a receiver expression names, when it is a chain of names that
    resolves to a known class. -/
def staticReceiver? (obj : Expr) : Gen (Option String) := do
  match ← typePath obj with
  | some p => return (← read).resolver.lookupType? p
  | none => return none

/-- The receiver a compiled expression of type `t` gives. -/
def valueReceiver (span : Span) (t : Ty) : Gen Receiver :=
  match t with
  | .typeRef target =>
    match target.className? with
    | some n => pure (.static n)
    | none => mismatch (.noMembers target) span
  | .void => mismatch .noValue span
  | t => pure (.value t)

def unknownField (field owner : String) (span : Span) : CompilationError :=
  .unknownField field (Ty.dotted owner) span

/-- Read the field `name` of a receiver. -/
def fieldRead (r : Receiver) (name : String) (span : Span) : Gen Ty := do
  let c ← read
  match r with
  | .static owner =>
    match c.table.findField? owner name with
    | none => fail (unknownField name owner span)
    | some (d, f) =>
      unless f.isStatic do mismatch (.fieldNotStatic name d.asType) span
      out (·.field .getstatic d.name name f.ty)
      return f.ty
  | .value t@(.array _) =>
    if name == "length" then
      out (·.emit .arraylength)
      return .int
    else fail (.unknownField name t.display span)
  | .value (.obj owner) =>
    match c.table.findField? owner name with
    | none => fail (unknownField name owner span)
    | some (d, f) =>
      if f.isStatic then out fun e => (e.emit .pop).field .getstatic d.name name f.ty
      else out (·.field .getfield d.name name f.ty)
      return f.ty
  | .value t => fail (.unknownField name t.display span)

/-- Invoke a method as declared by its class: `INVOKESTATIC` for a static
    method, `INVOKEINTERFACE` on a trait, `INVOKEVIRTUAL` otherwise. -/
def invokeInstruction (d : TypeDecl) (m : MethodSig) : Instruction :=
  let op := if m.isStatic then Opcode.invokestatic
    else if d.isTrait then .invokeinterface else .invokevirtual
  Emitter.invokeRef op d.name m.name m.type

def emitInvoke (d : TypeDecl) (m : MethodSig) : Gen Unit :=
  out (·.push (invokeInstruction d m))

/-- The first method of `owner` or a superclass named `name` that fits `args`;
    instance methods only when `allowInstance`. -/
def findCallable? (t : ClassTable) (owner name : String) (args : List Ty) (allowInstance : Bool) :
    Option (TypeDecl × MethodSig) :=
  (t.ancestors owner).findSome? fun d =>
    (d.methods.find? fun m => m.name == name && !m.isConstructor &&
      (allowInstance || m.isStatic) && MethodType.fits m.params args).map (d, ·)

/-- `NEW A; DUP_X1; SWAP; INVOKESPECIAL A.<init>(S)V`: wrap the struct on the
    stack into a new adapter `A`. -/
def adapterWrap (adapter : String) (wrapped : Ty) : List Instruction :=
  [.classRef .newObject adapter, .simple .dupX1, .simple .swap,
    Emitter.invokeRef .invokespecial adapter constructorName ⟨[wrapped], .void⟩]

/-- A call `name(args)` by a bare name, its arguments compiled after `mark`.
    Inside an impl method the adapter's methods come first, then the wrapped
    struct's; elsewhere the class's own methods, then the file's global
    functions. -/
def bareCall (name : String) (args : List Ty) (mark : Nat) (span : Span) : Gen Ty := do
  let c ← read
  let found : Option Ty ← match c.adapter? with
    | some a =>
      match c.owner.findMethod? name args with
      | some m =>
        out fun e => e.insert mark [.slot .aload 0]
        emitInvoke c.owner m
        pure (some m.ret)
      | none =>
        match findCallable? c.table a.structName name args true with
        | some (d, m) =>
          unless m.isStatic do
            out fun e => e.insert mark
              [.slot .aload 0, .field .getfield ⟨c.owner.name, wrappedField, (Ty.obj a.structName).descriptor⟩]
          emitInvoke d m
          pure (some m.ret)
        | none => pure none
    | none =>
      match findCallable? c.table c.owner.name name args !c.isStatic with
      | some (d, m) =>
        unless m.isStatic do out fun e => e.insert mark [.slot .aload 0]
        emitInvoke d m
        pure (some m.ret)
      | none => pure none
  match found with
  | some t => return t
  | none =>
  let viaHolder := match c.holder with
    | some h => if h.name != c.owner.name then findCallable? c.table h.name name args false else none
    | none => none
  match viaHolder with
  | some (d, m) =>
    emitInvoke d m
    return m.ret
  | none => fail (.noApplicableMethod c.thisType.display name (Ty.displayList args) span)

/-- `Owner.name(args)` on a class. -/
def staticCall (owner name : String) (args : List Ty) (span : Span) : Gen Ty := do
  match findCallable? (← read).table owner name args true with
  | none => fail (.noApplicableMethod (Ty.obj owner).display name (Ty.displayList args) span)
  | some (d, m) =>
    unless m.isStatic do mismatch (.methodNotStatic d.asType name) span
    emitInvoke d m
    return m.ret

/-- `receiver.name(args)` with the receiver below the arguments compiled after
    `mark`. -/
def methodCall (recv : Ty) (name : String) (args : List Ty) (mark : Nat) (span : Span) : Gen Ty := do
  let c ← read
  let noMethod : CompilationError := .noApplicableMethod recv.display name (Ty.displayList args) span
  let owner ← match recv with
    | .obj o => pure o
    | .array _ => pure objectClass
    | _ => fail noMethod
  match c.table.findMethod? owner name args with
  | some (d, m) =>
    if m.isStatic then out fun e => e.insert mark [.simple .pop]
    emitInvoke d m
    return m.ret
  | none =>
  let viaTrait := (c.table.findTraitMethod? owner name args).bind fun (tr, m) =>
    (c.table.adapterFor? tr.name owner).map (·, m)
  match viaTrait with
  | some (adapter, m) =>
    out fun e => (e.insert mark (adapterWrap adapter.name recv)).invoke .invokevirtual adapter.name
      name m.type
    return m.ret
  | none => fail noMethod

/-- `-x` or `!x` on a compiled operand. -/
def unary (op : UnOp) (t : Ty) (span : Span) : Gen Ty :=
  match op with
  | .neg =>
    match Rules.negate t with
    | some (code, r) => do out (·.emit code); return r
    | none => mismatch (.cannotNegate t) span
  | .not => do
    expectBool .notOperand t span
    out fun e => (e.emit .iconst1).emit .ixor
    return .bool

/-- A binary operator on compiled operands. `&&` and `||` evaluate both sides
    and combine them with `IAND` and `IOR`. -/
def binary (op : BinOp) (l r : Ty) (span : Span) : Gen Ty := do
  let bad : Gen Ty := mismatch (.badOperands op l r) span
  if op.isLogical then
    expectBool (.leftOperand op) l span
    expectBool (.rightOperand op) r span
    out (·.emit (if op == .and then .iand else .ior))
    return .bool
  match op.comparison? with
  | some cmp =>
    match Rules.compare cmp l r with
    | none => bad
    | some (pre, jump) =>
      out fun e => pre.foldl Emitter.emit e
      let onTrue ← newLabel
      let stop ← newLabel
      out fun e => ((((e.jump jump onTrue).emit .iconst0).jump .goto stop).place onTrue |>.emit
        .iconst1).place stop
      return .bool
  | none =>
    match op.arith?.bind fun a => Rules.arith a l r with
    | some (code, t) => do out (·.emit code); return t
    | none => bad

/-- Turn the reference on the stack into an instance of a trait: build the
    adapter name from the operand's run-time class (`runtimeAdapterName`: the
    prefix, then the class name with its dots replaced by underscores) and
    create the adapter by reflection. -/
def reflectiveCast (traitName : String) : Gen Unit := do
  let c ← read
  let tmp ← withScope (·.allocate Ty.object c.method.span)
  let cls : Ty := .obj Library.classClass
  let seq : Ty := .obj Library.charSequenceClass
  let getClass : MethodType := ⟨[], cls⟩
  out fun e => e.store Ty.object tmp
    |>.emitString (adapterPrefix traitName)
    |>.load Ty.object tmp
    |>.invoke .invokevirtual objectClass "getClass" getClass
    |>.invoke .invokevirtual Library.classClass "getName" ⟨[], Ty.string⟩
    |>.emitString "."
    |>.emitString "_"
    |>.invoke .invokevirtual stringClass "replace" ⟨[seq, seq], Ty.string⟩
    |>.invoke .invokevirtual stringClass "concat" ⟨[Ty.string], Ty.string⟩
    |>.invoke .invokestatic Library.classClass "forName" ⟨[Ty.string], cls⟩
    |>.emit .iconst1
    |>.classRef .anewarray Library.classClass
    |>.emit .dup
    |>.emit .iconst0
    |>.load Ty.object tmp
    |>.invoke .invokevirtual objectClass "getClass" getClass
    |>.emit .aastore
    |>.invoke .invokevirtual Library.classClass "getDeclaredConstructor"
      ⟨[.array cls], .obj Library.constructorClass⟩
    |>.emit .iconst1
    |>.classRef .anewarray objectClass
    |>.emit .dup
    |>.emit .iconst0
    |>.load Ty.object tmp
    |>.emit .aastore
    |>.invoke .invokevirtual Library.constructorClass "newInstance" ⟨[.array Ty.object], Ty.object⟩
    |>.classRef .checkcast traitName

/-- Turn the reference on the stack into an instance of a trait, creating the
    adapter directly when the operand's type is a struct known to implement
    it. -/
def traitCast (operand : Ty) (traitName : String) : Gen Unit := do
  let c ← read
  match c.options.traitCasts with
  | .reflective => reflectiveCast traitName
  | .static =>
    match operand.className?.bind (c.table.adapterFor? traitName) with
    | some adapter => out fun e => (adapterWrap adapter.name operand).foldl Emitter.push e
    | none => reflectiveCast traitName

/-- `cast<target>(e)` on a compiled operand. -/
def cast (target operand : Ty) (span : Span) : Gen Ty := do
  if operand == target then return target
  let invalid : CompilationError := .invalidCast operand.display target.display span
  if operand.isNumeric && target.isNumeric then
    out fun e => (Rules.conversion operand target).foldl Emitter.emit e
    return target
  unless operand.isReference && target.isReference do fail invalid
  let c ← read
  match target with
  | .obj n =>
    if c.table.isTrait n && !operand.isNull then traitCast operand n
    else out (·.classRef .checkcast n)
  | t =>
    match t.classOperand? with
    | some op => out (·.classRef .checkcast op)
    | none => fail invalid
  return target

/-- The class of `new t(…)`, which must be a struct or module; pushes the new
    object twice. -/
def instantiate (t : Ty) (span : Span) : Gen TypeDecl := do
  let c ← read
  let d? := match t with
    | .obj n => (c.table.get? n).filter TypeDecl.isInstantiable
    | _ => none
  match d? with
  | none => fail (.invalidOperation ("cannot instantiate '" ++ t.display ++ "'") span)
  | some d =>
    out fun e => (e.classRef .newObject d.name).emit .dup
    return d

/-- Call the constructor of `d` fitting the compiled arguments. -/
def construct (d : TypeDecl) (t : Ty) (args : List Ty) (span : Span) : Gen Ty := do
  match d.findConstructor? args with
  | none => fail (.noApplicableConstructor t.display (Ty.displayList args) span)
  | some m =>
    if m.hasMarker then out (·.emit .aconstNull)
    out (·.invoke .invokespecial d.name constructorName ⟨m.params, .void⟩)
    return t

/-- Create the array of `count` elements of type `elem` that lie on the stack,
    storing them from the last one back. -/
def fillArray (elem : Ty) (count : Nat) (span : Span) : Gen Ty := do
  if count > 2147483647 then fail (.invalidOperation "too many array elements" span)
  let wide := elem.slotSize == 2
  out fun e =>
    let e := (e.emitInt (Int32.ofNat count)).newArray elem
    (List.range count).reverse.foldl (fun e i =>
      let e := if wide then (((e.emit .dupX2).emitInt (Int32.ofNat i)).emit .dup2X2).emit .pop2
        else (((e.emit .dupX1).emit .swap).emitInt (Int32.ofNat i)).emit .swap
      e.emit (Opcode.arrayStoreFor elem)) e
  return .array elem

/-- The element type of an indexed value. -/
def elementOf (t : Ty) (span : Span) : Gen Ty :=
  match t.element? with
  | some e => pure e
  | none => mismatch (.notAnArray t) span

def checkIndex (t : Ty) (span : Span) : Gen Unit :=
  unless t.isIntLike do mismatch (.badIndex t) span

/-- A bare name as the target of an assignment. -/
def identTarget (id : Ident) : Gen LValue := do
  let c ← read
  match (← get).scope.lookup? id.name with
  | some v => return .local v.slot v.ty
  | none =>
  if id.name == "this" then fail (.notAnLvalue id.span)
  match c.table.findField? c.fieldScope.name id.name with
  | some (d, f) =>
    unless f.isStatic do
      let _ ← pushThis id.span
    return .field d.name f.name f.ty f.isStatic
  | none =>
  if (c.resolver.lookupType? id.name).isSome then fail (.notAnLvalue id.span)
  fail (.unresolvedName id.name id.span)

/-- The field `name` of a receiver as the target of an assignment. -/
def fieldTarget (r : Receiver) (name : String) (span : Span) : Gen LValue := do
  let c ← read
  match r with
  | .static owner =>
    match c.table.findField? owner name with
    | none => fail (unknownField name owner span)
    | some (d, f) =>
      unless f.isStatic do mismatch (.fieldNotStatic name d.asType) span
      return .field d.name f.name f.ty true
  | .value (.obj owner) =>
    match c.table.findField? owner name with
    | none => fail (unknownField name owner span)
    | some (d, f) =>
      if f.isStatic then out (·.emit .pop)
      return .field d.name f.name f.ty f.isStatic
  | .value t =>
    if t.isArray && name == "length" then fail (.notAnLvalue span)
    else fail (.unknownField name t.display span)

/-- Store into an assignment target. -/
def storeTo : LValue → Gen Unit
  | .local slot t => out (·.store t slot)
  | .field owner name t isStatic =>
    out (·.field (if isStatic then .putstatic else .putfield) owner name t)
  | .element t => out (·.emit (Opcode.arrayStoreFor t))

mutual

/-- Compile an expression; its type is `void` or `type C` when it leaves
    nothing on the stack. -/
def expr : Expr → Gen Ty
  | .lit l _ => literal l
  | .ident id => identifier id
  | .paren e _ => expr e
  | .binary op l r span => do
    let lt ← requireValue l.span (← expr l)
    let rt ← requireValue r.span (← expr r)
    binary op lt rt span
  | .unary op e span => do
    let t ← requireValue e.span (← expr e)
    unary op t span
  | .assign target value span => do
    let lv ← assignTarget target
    let v ← requireValue value.span (← expr value)
    unless lv.ty.accepts v do mismatch (.cannotAssign v lv.ty) span
    storeTo lv
    return .void
  | .call callee args span => do
    let m ← mark
    let ts ← arguments args
    bareCall callee.name ts m span
  | .field obj name span => do
    match ← staticReceiver? obj with
    | some owner => fieldRead (.static owner) name.name span
    | none =>
      let r ← valueReceiver obj.span (← expr obj)
      fieldRead r name.name span
  | .method obj name args span => do
    match ← staticReceiver? obj with
    | some owner => staticCall owner name.name (← arguments args) span
    | none =>
      match ← valueReceiver obj.span (← expr obj) with
      | .static owner => staticCall owner name.name (← arguments args) span
      | .value t =>
        let m ← mark
        let ts ← arguments args
        methodCall t name.name ts m span
  | .index obj idx _ => do
    let elem ← elementOf (← requireValue obj.span (← expr obj)) obj.span
    checkIndex (← requireValue idx.span (← expr idx)) idx.span
    out (·.emit (Opcode.arrayLoadFor elem))
    return elem
  | .cast target e span => do
    let t ← resolveKnown target
    let v ← requireValue e.span (← expr e)
    cast t v span
  | .newObj ty args span => do
    let t ← resolveKnown ty
    let d ← instantiate t span
    construct d t (← arguments args) span
  | .array elemTy elems span => do
    let elem ← resolveKnown elemTy
    if elem.isVoid then mismatch .voidElements span
    elements elem elems
    fillArray elem elems.length span

/-- Compile call arguments left to right. -/
def arguments : List Expr → Gen (List Ty)
  | [] => pure []
  | a :: rest => do
    let t ← requireValue a.span (← expr a)
    return t :: (← arguments rest)

/-- Compile array elements, each of a type the element type accepts. -/
def elements (elem : Ty) : List Expr → Gen Unit
  | [] => pure ()
  | a :: rest => do
    let v ← requireValue a.span (← expr a)
    unless elem.accepts v do mismatch (.badElement v elem) a.span
    elements elem rest

/-- Work out where an assignment stores, pushing its receiver or array and
    index. -/
def assignTarget : Expr → Gen LValue
  | .ident id => identTarget id
  | .paren e _ => assignTarget e
  | .field obj name span => do
    match ← staticReceiver? obj with
    | some owner => fieldTarget (.static owner) name.name span
    | none =>
      let r ← valueReceiver obj.span (← expr obj)
      fieldTarget r name.name span
  | .index obj idx _ => do
    let elem ← elementOf (← requireValue obj.span (← expr obj)) obj.span
    checkIndex (← requireValue idx.span (← expr idx)) idx.span
    return .element elem
  | e => fail (.notAnLvalue e.span)

end

end Gen

end ClassCompiler
