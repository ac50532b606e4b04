import ClassCompiler.Jvm.Opcode
import ClassCompiler.Source.Syntax

/-!
# Operator rules

Which instructions an operator takes for its operand types, and the type of
its result, as pure functions of the types; the expression compiler applies
them after compiling the operands.

* Arithmetic needs two numeric operands of one kind; the narrow int types
  compute as `int`.
* References compare only for (in)equality. Ints compare with `IF_ICMPxx`, and
  `bool` only with `bool` and only for (in)equality. Longs, floats and doubles
  are compared into an int first (`LCMP`, `FCMPx`, `DCMPx`) and the jump tests
  it against zero.
* A numeric conversion goes through `int` for `byte`, `char` and `short`.
-/

namespace ClassCompiler

namespace Syntax.BinOp

/-- The arithmetic operation of an operator. -/
def arith? : BinOp → Option Opcode.Arith
  | .add => some .add | .sub => some .sub | .mul => some .mul | .div => some .div
  | .rem => some .rem
  | _ => none

/-- The comparison of an operator. -/
def comparison? : BinOp → Option Opcode.Comparison
  | .eq => some .eq | .ne => some .ne | .lt => some .lt | .le => some .le | .gt => some .gt
  | .ge => some .ge
  | _ => none

def isLogical (op : BinOp) : Bool := op == .and || op == .or

end Syntax.BinOp

namespace Rules

/-- The instruction and result type of arithmetic on `l` and `r`. -/
def arith (op : Opcode.Arith) (l r : Ty) : Option (Opcode × Ty) :=
  if l.isNumeric && r.isNumeric && l.kind == r.kind then
    (Opcode.arith op l.kind).map fun code => (code, if l.kind == .int then .int else l)
  else none

/-- The instructions comparing `l` with `r` and the jump taken when the
    comparison holds. -/
def compare (c : Opcode.Comparison) (l r : Ty) : Option (List Opcode × Opcode) :=
  if l.isReference && r.isReference then (Opcode.ifAcmp c).map fun j => ([], j)
  else if l.kind != r.kind then none
  else match l.kind with
    | .int =>
      match l == .bool, r == .bool with
      | true, true => if c.isEquality then some ([], Opcode.ifIcmp c) else none
      | false, false => some ([], Opcode.ifIcmp c)
      | _, _ => none
    | .long | .float | .double => (Opcode.compare l.kind c).map fun op => ([op], Opcode.ifZero c)
    | _ => none

/-- The negation of a numeric value and its result type. -/
def negate (t : Ty) : Option (Opcode × Ty) :=
  if t.isNumeric then (Opcode.negate t.kind).map fun op => (op, if t.kind == .int then .int else t)
  else none

/-- The instructions converting a numeric value of type `source` to `target`. -/
def conversion (source target : Ty) : List Opcode :=
  let toInt : List Opcode := match source with
    | .long => [.l2i]
    | .float => [.f2i]
    | .double => [.d2i]
    | _ => []
  match source, target with
  | .long, .float => [.l2f]
  | .long, .double => [.l2d]
  | .float, .long => [.f2l]
  | .float, .double => [.f2d]
  | .double, .long => [.d2l]
  | .double, .float => [.d2f]
  | _, .long => [.i2l]
  | _, .float => [.i2f]
  | _, .double => [.i2d]
  | _, .byte => toInt ++ [.i2b]
  | _, .char => toInt ++ [.i2c]
  | _, .short => toInt ++ [.i2s]
  | _, _ => toInt

end Rules

end ClassCompiler
