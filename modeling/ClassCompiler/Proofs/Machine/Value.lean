import ClassCompiler.Jvm.ClassRecord
import ClassCompiler.Jvm.Descriptor
import ClassCompiler.Text.Hex
import ClassCompiler.Text.ModifiedUtf8

/-!
# Values of the reference machine

The end-to-end tests run compiled class records on a small stack machine that
models just enough of the platform library (strings, `System.out`, `Math`,
`Integer`, and the reflection calls of trait casts) to observe what a program
does. This module holds its data: values, heap objects, and the texts values
print as.

* A `long` or a `double` takes two words, on the operand stack and among the
  locals; the second word is `top`.
* Floats are kept as their bits and computed on as IEEE binary32 and binary64
  numbers. A remainder keeps the sign of the dividend and is exact; a
  conversion to an integer truncates, saturates, and takes NaN to zero.
* `Value.same` is the machine's equality of values: `null` equals only `null`,
  references are equal when they name the same object, and floats compare as
  numbers.
* `Value.debug` is how error messages show a value, `javaFloat` how `print`
  writes a floating value.
-/

namespace ClassCompiler.Machine

/-- A value on the operand stack or in a local slot. -/
inductive Value where
  | int (v : Int32)
  | long (v : Int64)
  | float (bits : UInt32)
  | double (bits : UInt64)
  | null
  | ref (id : Nat)
  /-- The second word of a `long` or a `double`. -/
  | top
  deriving DecidableEq, Repr, Inhabited

/-- A heap object. The fields of an instance are looked up by name. -/
inductive Object where
  | inst (cls : String) (fields : String → Option Value)
  | array (items : Array Value)
  | str (s : String)
  /-- A `java/lang/Class` for an internal class name. -/
  | classObj (name : String)
  /-- A `java/lang/reflect/Constructor` of an internal class name. -/
  | ctorObj (name : String)
  | printStream (err : Bool)
  deriving Inhabited

/-- Why a run stops early: an error the machine reports, or a failed check of
    the machine itself (an index out of range, a value of the wrong kind where
    the machine takes one for granted), which aborts the test running it. -/
inductive Fault where
  | error (msg : String)
  | crash (msg : String)
  deriving DecidableEq, Repr

/-! ### Floating point -/

namespace Ieee

/-- The binary32 number of some bits. -/
def single (b : UInt32) : Float32 := Float32.ofBits b

/-- The binary64 number of some bits. -/
def double (b : UInt64) : Float := Float.ofBits b

/-- The exact remainder of `x` by `y`, with the sign of `x`: NaN when `x` is
    infinite or `y` is zero, `x` itself when `y` is infinite. -/
def remBits (f : BinaryFormat) (x y : Nat) : Nat :=
  match f.decode x, f.decode y with
  | .finite neg m₁ e₁, .finite _ m₂ e₂ =>
    if m₂ = 0 then f.nanBits
    else
      let e := min e₁ e₂
      -- both operands as multiples of `2^e`
      let r := (m₁ * Nat.pow 2 (e₁ - e).toNat) % (m₂ * Nat.pow 2 (e₂ - e).toNat)
      f.withSign neg (f.roundRatio (r * Nat.pow 2 e.toNat) (Nat.pow 2 (-e).toNat))
  | .finite .., .inf _ => x
  | _, _ => f.nanBits

/-- A binary32 value widened to binary64, exactly. -/
def widen (b : UInt32) : UInt64 :=
  (BinaryFormat.narrow .single .double b.toNat).toUInt64

/-- A binary64 value rounded to binary32. -/
def narrow (b : UInt64) : UInt32 :=
  (BinaryFormat.narrow .double .single b.toNat).toUInt32

/-- The order of two numbers, none when one is NaN. -/
def compare32 (a b : UInt32) : Option Ordering :=
  if single a < single b then some .lt
  else if single a == single b then some .eq
  else if single b < single a then some .gt
  else none

def compare64 (a b : UInt64) : Option Ordering :=
  if double a < double b then some .lt
  else if double a == double b then some .eq
  else if double b < double a then some .gt
  else none

def int32OfSingle (b : UInt32) : Int32 := (single b).toModel.toInt32
def int64OfSingle (b : UInt32) : Int64 := (single b).toModel.toInt64
def int32OfDouble (b : UInt64) : Int32 := (double b).toModel.toInt32
def int64OfDouble (b : UInt64) : Int64 := (double b).toModel.toInt64
def singleOfInt32 (v : Int32) : UInt32 := (Float32.Model.ofInt32 v).toBits
def singleOfInt64 (v : Int64) : UInt32 := (Float32.Model.ofInt64 v).toBits
def doubleOfInt32 (v : Int32) : UInt64 := (Float.Model.ofInt32 v).toBits
def doubleOfInt64 (v : Int64) : UInt64 := (Float.Model.ofInt64 v).toBits

/-- Whether the finite value `m · 2^e` is a whole number. -/
def isWhole (m : Nat) (e : Int) : Bool :=
  e ≥ 0 || m % Nat.pow 2 (-e).toNat == 0

/-- The whole number `m · 2^e`, for a whole value. -/
def wholeValue (m : Nat) (e : Int) : Nat :=
  if e ≥ 0 then m * Nat.pow 2 e.toNat else m / Nat.pow 2 (-e).toNat

/-- How `print` writes a double: a whole number below `10^7` in magnitude with
    one decimal `.0`, anything else in its shortest positional form. -/
def javaFloat (b : UInt64) : String :=
  match BinaryFormat.double.decode b.toNat with
  | .finite neg m e =>
    if isWhole m e && wholeValue m e < 10000000 then
      (if neg then "-" else "") ++ toString (wholeValue m e) ++ ".0"
    else BinaryFormat.double.decimalText b.toNat
  | _ => BinaryFormat.double.decimalText b.toNat

/-- How an error message shows a float: shortest digits, in exponent form below
    `10^-4` and from `10^16` on, and otherwise positionally with at least one
    decimal. -/
def debugText (f : BinaryFormat) (bits : Nat) : String :=
  match f.decode bits with
  | .nan => "NaN"
  | .inf neg => if neg then "-inf" else "inf"
  | .finite neg m e =>
    let sign := if neg then "-" else ""
    if m = 0 then sign ++ "0.0"
    else
      let (ds, k) := shortestDigits f m e
      let digit (d : Nat) : Char := Char.ofNat (48 + d)
      if k ≤ -4 ∨ k ≥ 17 then
        let lead := String.ofList ((ds.take 1).map digit)
        let rest := String.ofList ((ds.drop 1).map digit)
        sign ++ lead ++ (if rest.isEmpty then "" else "." ++ rest) ++ "e" ++ toString (k - 1)
      else
        let text := positional ds k
        sign ++ (if text.contains '.' then text else text ++ ".0")

end Ieee

/-! ### Texts -/

namespace Value

/-- Longs and doubles take two words. -/
def isWide : Value → Bool
  | .long _ | .double _ => true
  | _ => false

/-- The machine's equality: floats compare as numbers, everything else by
    identity. -/
def same : Value → Value → Bool
  | .int a, .int b => a == b
  | .long a, .long b => a == b
  | .float a, .float b => Ieee.single a == Ieee.single b
  | .double a, .double b => Ieee.double a == Ieee.double b
  | .null, .null => true
  | .ref a, .ref b => a == b
  | .top, .top => true
  | _, _ => false

/-- The value as error messages show it: `Int(5)`, `Ref(3)`, `Null`. -/
def debug : Value → String
  | .int v => "Int(" ++ toString v.toInt ++ ")"
  | .long v => "Long(" ++ toString v.toInt ++ ")"
  | .float b => "Float(" ++ Ieee.debugText .single b.toNat ++ ")"
  | .double b => "Double(" ++ Ieee.debugText .double b.toNat ++ ")"
  | .null => "Null"
  | .ref id => "Ref(" ++ toString id ++ ")"
  | .top => "Top"

/-- The int a value holds, or the error for a value of another kind. -/
def asInt : Value → Except Fault Int32
  | .int v => .ok v
  | other => .error (.error ("VerifyError: expected int, found " ++ other.debug))

/-- The long a value holds; the machine takes that for granted. -/
def asLong : Value → Except Fault Int64
  | .long v => .ok v
  | other => .error (.crash ("expected long, found " ++ other.debug))

/-- The float a value holds, or the error for a value of another kind. -/
def asFloat : Value → Except Fault UInt32
  | .float b => .ok b
  | other => .error (.error ("VerifyError: expected float, found " ++ other.debug))

/-- The double a value holds; the machine takes that for granted. -/
def asDouble : Value → Except Fault UInt64
  | .double b => .ok b
  | other => .error (.crash ("expected double, found " ++ other.debug))

end Value

/-- The value a field or array element of a descriptor starts with. -/
def defaultValue (descriptor : String) : Value :=
  match descriptor.toList.head? with
  | some 'J' => .long 0
  | some 'F' => .float 0
  | some 'D' => .double 0
  | some 'L' | some '[' => .null
  | _ => .int 0

/-- The element every `NEWARRAY` of a type code starts with. -/
def newarrayDefault (code : Int32) : Value :=
  match code.toInt with
  | 6 => .float 0
  | 7 => .double 0
  | 11 => .long 0
  | _ => .int 0

/-- The parameter descriptors of a one-parameter method descriptor: the text
    between the parentheses. -/
def paramDescriptor (descriptor : String) : String :=
  match descriptor.toList with
  | '(' :: rest => String.ofList (rest.takeWhile (· != ')'))
  | _ => ""

/-- The character of a code point, if it is one. -/
def charOfNat? (n : Nat) : Option Char :=
  if n.isValidChar then some (Char.ofNat n) else none

/-! ### Strings -/

namespace Text

/-- The UTF-16 code units of a string. -/
def utf16 (s : String) : List Nat := s.toList.flatMap ClassCompiler.Text.utf16Units

/-- The hash of a string: its UTF-16 units folded by `h ↦ 31·h + u`, wrapping. -/
def hash (s : String) : Int32 :=
  (utf16 s).foldl (fun h u => h * 31 + Int32.ofNat u) 0

/-- Replace every occurrence of `pat`, left to right and without overlaps. An
    empty pattern matches before every character and at the end. -/
def replaceAll (pat rep : List Char) : List Char → List Char
  | [] => if pat.isEmpty then rep else []
  | c :: cs =>
    if pat.isEmpty then rep ++ c :: replaceAll pat rep cs
    else if pat.isPrefixOf (c :: cs) then
      -- the occurrence is skipped whole: matches never overlap
      rep ++ replaceAll pat rep ((c :: cs).drop pat.length)
    else c :: replaceAll pat rep cs
termination_by cs => cs.length
decreasing_by
  all_goals simp_wf
  all_goals
    have : pat.length ≠ 0 := by simp_all
    omega

/-- The characters of the Unicode property White_Space. -/
def isWhitespace (c : Char) : Bool :=
  let n := c.toNat
  (0x9 ≤ n && n ≤ 0xD) || n == 0x20 || n == 0x85 || n == 0xA0 || n == 0x1680 ||
    (0x2000 ≤ n && n ≤ 0x200A) || n == 0x2028 || n == 0x2029 || n == 0x202F ||
    n == 0x205F || n == 0x3000

/-- A string without the white space at both ends. -/
def trim (cs : List Char) : List Char :=
  ((cs.dropWhile isWhitespace).reverse.dropWhile isWhitespace).reverse

/-- The value of decimal digits, if every character is one. -/
def digitsValue (cs : List Char) : Option Nat :=
  cs.foldl (fun acc c => acc.bind fun n =>
    if c.isDigit then some (10 * n + (c.toNat - 48)) else none) (some 0)

/-- A 32-bit integer as text: an optional sign and at least one decimal digit,
    the value in range. -/
def parseInt32 (cs : List Char) : Option Int32 :=
  let (neg, digits) := match cs with
    | '-' :: rest => (true, rest)
    | '+' :: rest => (false, rest)
    | _ => (false, cs)
  if digits.isEmpty then none
  else (digitsValue digits).bind fun n =>
    let v : Int := if neg then -(n : Int) else n
    if -2147483648 ≤ v ∧ v ≤ 2147483647 then some (Int32.ofInt v) else none

end Text

end ClassCompiler.Machine
