import ClassCompiler.Source.Syntax
import ClassCompiler.Jvm.Ty

/-!
# The meaning of primitive programs

A direct semantics of the part of the language where every value is an `int`,
`long`, `bool`, `byte`, `char` or `short`: literals, local variables and
parameters, unary `-` and `!`, arithmetic, comparisons, `&&` and `||`, numeric
casts, `let`, assignment, blocks, `if`, `while`, `return` and calls of the
global functions of the file.

* Arithmetic wraps around in two's complement. The narrow types `byte`, `char`
  and `short` compute as `int`; an `int` and a `long` never mix. Division and
  remainder truncate towards zero (the remainder has the sign of the
  dividend); dividing by zero stops the program.
* `&&` and `||` evaluate both operands.
* A cast converts through `int`: to a narrow type it keeps the low bits, to
  `long` it extends the sign, from `long` it keeps the low 32 bits.
* A call evaluates its arguments left to right and runs the first function
  of that name whose parameter types are the arguments' types.
* Blocks scope their variables.

Evaluation is given fuel: a level `n` may make calls and repeat loops `n` deep,
and a program diverges when it runs out of fuel at every level. A program the
semantics does not cover (a float, a field, a variable never declared)
goes wrong.
-/

namespace ClassCompiler.Primitive

open Syntax

/-- The types of the fragment. -/
inductive PTy where
  | int
  | long
  | bool
  | byte
  | char
  | short
  deriving DecidableEq, Repr

namespace PTy

/-- The type as the compiler names it. -/
def ty : PTy → Ty
  | .int => .int
  | .long => .long
  | .bool => .bool
  | .byte => .byte
  | .char => .char
  | .short => .short

/-- The type a built-in type name stands for. -/
def ofName? : String → Option PTy
  | "int" => some .int
  | "long" => some .long
  | "bool" => some .bool
  | "byte" => some .byte
  | "char" => some .char
  | "short" => some .short
  | _ => none

/-- The type a written type stands for, when it is one of the fragment's. -/
def ofTypeExpr? (t : TypeExpr) : Option PTy :=
  if t.dims = 0 then ofName? t.path.dotted else none

/-- The types that compute as `int`. -/
def isIntLike : PTy → Bool
  | .int | .byte | .char | .short => true
  | .long | .bool => false

end PTy

/-- A value of the fragment. -/
inductive PVal where
  | int (v : Int32)
  | long (v : Int64)
  | bool (b : Bool)
  | byte (v : Int8)
  | char (v : UInt16)
  | short (v : Int16)
  deriving DecidableEq, Repr

namespace PVal

def ty : PVal → PTy
  | .int _ => .int
  | .long _ => .long
  | .bool _ => .bool
  | .byte _ => .byte
  | .char _ => .char
  | .short _ => .short

/-- The `int` a value of an int-like type computes as. -/
def toInt? : PVal → Option Int32
  | .int v => some v
  | .byte v => some v.toInt32
  | .char v => some v.toUInt32.toInt32
  | .short v => some v.toInt32
  | .long _ | .bool _ => none

end PVal

/-- How an evaluation stops early. -/
inductive Stop where
  | divByZero
  | outOfFuel
  /-- Outside the fragment, or not well typed. -/
  | wrong
  deriving DecidableEq, Repr

abbrev Res (α : Type) := Except Stop α

/-- The variables in scope, the latest first. -/
abbrev Env := List (String × PVal)

namespace Env

/-- Give the innermost variable of a name a new value. -/
def set : Env → String → PVal → Env
  | [], _, _ => []
  | (y, w) :: env, x, v => if y = x then (x, v) :: env else (y, w) :: set env x v

end Env

/-! ### Operators -/

/-- The value of a literal of the fragment. -/
def literal : Literal → Res PVal
  | .int v => .ok (.int v)
  | .long v => .ok (.long v)
  | .bool b => .ok (.bool b)
  | _ => .error .wrong

/-- Division and remainder by zero stop the program. -/
def intArith (op : BinOp) (a b : Int32) : Res Int32 :=
  match op with
  | .add => .ok (a + b)
  | .sub => .ok (a - b)
  | .mul => .ok (a * b)
  | .div => if b = 0 then .error .divByZero else .ok (a / b)
  | .rem => if b = 0 then .error .divByZero else .ok (a % b)
  | _ => .error .wrong

def longArith (op : BinOp) (a b : Int64) : Res Int64 :=
  match op with
  | .add => .ok (a + b)
  | .sub => .ok (a - b)
  | .mul => .ok (a * b)
  | .div => if b = 0 then .error .divByZero else .ok (a / b)
  | .rem => if b = 0 then .error .divByZero else .ok (a % b)
  | _ => .error .wrong

/-- A comparison of two numbers of an ordered type. -/
def relation {α : Type} [LT α] [LE α] [DecidableEq α] [DecidableRel (α := α) (· < ·)]
    [DecidableRel (α := α) (· ≤ ·)] (op : BinOp) (a b : α) : Res Bool :=
  match op with
  | .eq => .ok (decide (a = b))
  | .ne => .ok (decide (a ≠ b))
  | .lt => .ok (decide (a < b))
  | .le => .ok (decide (a ≤ b))
  | .gt => .ok (decide (b < a))
  | .ge => .ok (decide (b ≤ a))
  | _ => .error .wrong

/-- A binary operator on two values. -/
def binop (op : BinOp) (a b : PVal) : Res PVal :=
  match op with
  | .and | .or =>
    match a, b with
    | .bool x, .bool y => .ok (.bool (if op = .and then x && y else x || y))
    | _, _ => .error .wrong
  | .eq | .ne | .lt | .le | .gt | .ge =>
    match a, b with
    | .long x, .long y => .bool <$> relation op x y
    | .bool x, .bool y =>
      if op = .eq then .ok (.bool (x == y))
      else if op = .ne then .ok (.bool (x != y))
      else .error .wrong
    | a, b =>
      match a.toInt?, b.toInt? with
      | some x, some y => .bool <$> relation op x y
      | _, _ => .error .wrong
  | .add | .sub | .mul | .div | .rem =>
    match a, b with
    | .long x, .long y => .long <$> longArith op x y
    | a, b =>
      match a.toInt?, b.toInt? with
      | some x, some y => .int <$> intArith op x y
      | _, _ => .error .wrong

def unop (op : UnOp) (a : PVal) : Res PVal :=
  match op, a with
  | .not, .bool b => .ok (.bool !b)
  | .neg, .long v => .ok (.long (-v))
  | .neg, a =>
    match a.toInt? with
    | some v => .ok (.int (-v))
    | none => .error .wrong
  | .not, _ => .error .wrong

/-- A value converted to a numeric type; `bool` converts only to itself. -/
def cast (target : PTy) (a : PVal) : Res PVal :=
  if a.ty = target then .ok a
  else
    let asInt : Option Int32 := match a with
      | .long v => some v.toInt32
      | a => a.toInt?
    match target, a, asInt with
    | .long, .long v, _ => .ok (.long v)
    | .long, _, some i => .ok (.long i.toInt64)
    | .int, _, some i => .ok (.int i)
    | .byte, _, some i => .ok (.byte i.toInt8)
    | .char, _, some i => .ok (.char (UInt16.ofNat i.toBitVec.toNat))
    | .short, _, some i => .ok (.short i.toInt16)
    | _, _, _ => .error .wrong

/-- A value is needed: a void call or an assignment has none. -/
def needValue : Option PVal → Res PVal
  | some v => .ok v
  | none => .error .wrong

/-- The variable an assignment writes: a name, maybe in parentheses. -/
def targetName : Expr → Res String
  | .ident id => .ok id.name
  | .paren e _ => targetName e
  | _ => .error .wrong

/-! ### Evaluation -/

/-- Statements can end normally, with the variables in scope, or return. -/
inductive Flow where
  | normal (env : Env)
  | returned (v : Option PVal)

/-- What a level of evaluation does one level further down: a call of a
    function by its name, and the next round of a loop. -/
structure Level where
  call : String → List PVal → Res (Option PVal)
  loop : Expr → Block → Env → Res Flow

mutual

/-- The value of an expression, if it has one, and the variables after it. -/
def evalExpr (lv : Level) (env : Env) : Expr → Res (Option PVal × Env)
  | .lit l _ => do return (some (← literal l), env)
  | .ident id =>
    match env.lookup id.name with
    | some v => .ok (some v, env)
    | none => .error .wrong
  | .paren e _ => evalExpr lv env e
  | .unary op e _ => do
    let (a, env) ← evalExpr lv env e
    return (some (← unop op (← needValue a)), env)
  | .binary op l r _ => do
    let (a, env) ← evalExpr lv env l
    let a ← needValue a
    let (b, env) ← evalExpr lv env r
    let b ← needValue b
    return (some (← binop op a b), env)
  | .assign target value _ => do
    let x ← targetName target
    let (v, env) ← evalExpr lv env value
    let v ← needValue v
    match env.lookup x with
    | some old => if old.ty = v.ty then return (none, env.set x v) else .error .wrong
    | none => .error .wrong
  | .call callee args _ => do
    let (vs, env) ← evalArgs lv env args
    return (← lv.call callee.name vs, env)
  | .cast target e _ => do
    let some t := PTy.ofTypeExpr? target | .error .wrong
    let (a, env) ← evalExpr lv env e
    return (some (← cast t (← needValue a)), env)
  | _ => .error .wrong

/-- Arguments, left to right. -/
def evalArgs (lv : Level) (env : Env) : List Expr → Res (List PVal × Env)
  | [] => .ok ([], env)
  | a :: rest => do
    let (v, env) ← evalExpr lv env a
    let v ← needValue v
    let (vs, env) ← evalArgs lv env rest
    return (v :: vs, env)

end

/-- A variable declared by `let`: its declared type, if written, must be the
    initializer's. -/
def declare (x : String) (ty : Option TypeExpr) (v : PVal) (env : Env) : Res Env :=
  match ty with
  | none => .ok ((x, v) :: env)
  | some t => if PTy.ofTypeExpr? t = some v.ty then .ok ((x, v) :: env) else .error .wrong

/-- The value of a condition. -/
def condition : Option PVal → Res Bool
  | some (.bool b) => .ok b
  | _ => .error .wrong

mutual

def execStmt (lv : Level) (env : Env) : Stmt → Res Flow
  | .expr e _ => do
    let (_, env) ← evalExpr lv env e
    return .normal env
  | .letDecl x ty init _ => do
    let (v, env) ← evalExpr lv env init
    return .normal (← declare x.name ty (← needValue v) env)
  | .ret none _ => .ok (.returned none)
  | .ret (some e) _ => do
    let (v, _) ← evalExpr lv env e
    return .returned (some (← needValue v))
  | .block b => execBlock lv env b
  | .ifElse c thenB elseS _ => do
    let (v, env) ← evalExpr lv env c
    if ← condition v then execBlock lv env thenB
    else
      match elseS with
      | some s => execStmt lv env s
      | none => .ok (.normal env)
  | .while c body _ => do
    let (v, env) ← evalExpr lv env c
    if ← condition v then
      match ← execBlock lv env body with
      | .normal env => lv.loop c body env
      | .returned r => .ok (.returned r)
    else .ok (.normal env)

/-- A block runs its statements; its own variables end with it. -/
def execBlock (lv : Level) (env : Env) : Block → Res Flow
  | .mk stmts _ => do
    match ← execStmts lv env stmts with
    | .normal env' => .ok (.normal (env'.drop (env'.length - env.length)))
    | .returned r => .ok (.returned r)

def execStmts (lv : Level) (env : Env) : List Stmt → Res Flow
  | [] => .ok (.normal env)
  | s :: rest => do
    match ← execStmt lv env s with
    | .normal env => execStmts lv env rest
    | .returned r => .ok (.returned r)

end

/-! ### Functions -/

/-- The global functions of a file, in order. -/
def functions (sf : SourceFile) : List FnDecl :=
  sf.items.filterMap fun
    | .fnDecl f => some f
    | _ => none

/-- The parameter types of a function, if all are of the fragment. -/
def paramTypes? (f : FnDecl) : Option (List PTy) :=
  f.sig.params.mapM fun p => PTy.ofTypeExpr? p.ty

/-- The function a call runs: the first of its name whose parameter types are
    the types of the arguments. -/
def resolve (fns : List FnDecl) (name : String) (args : List PVal) : Option FnDecl :=
  fns.find? fun f => f.sig.name.name == name && paramTypes? f == some (args.map PVal.ty)

/-- The parameters bound to the arguments, the last one innermost. -/
def bindParams (f : FnDecl) (args : List PVal) : Env :=
  ((f.sig.params.map (·.name.name)).zip args).reverse

/-- Run the body of a function; falling off its end returns nothing. -/
def callBody (lv : Level) (f : FnDecl) (args : List PVal) : Res (Option PVal) := do
  match ← execStmts lv (bindParams f args) f.body.stmts with
  | .normal _ => .ok none
  | .returned r => .ok r

/-- Evaluation that may make calls and repeat loops `n` deep. -/
def levels (fns : List FnDecl) : Nat → Level
  | 0 => ⟨fun _ _ => .error .outOfFuel, fun _ _ _ => .error .outOfFuel⟩
  | n + 1 =>
    { call := fun name args =>
        match resolve fns name args with
        | some f => callBody (levels fns n) f args
        | none => .error .wrong
      loop := fun c body env => execStmt (levels fns n) env (.while c body default) }

/-- A call of a function of a file, evaluated `n` deep. -/
def run (n : Nat) (fns : List FnDecl) (f : FnDecl) (args : List PVal) : Res (Option PVal) :=
  callBody (levels fns n) f args

end ClassCompiler.Primitive
