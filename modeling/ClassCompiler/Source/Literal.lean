import ClassCompiler.Source.Syntax
import ClassCompiler.Source.Token
import ClassCompiler.Number.BinaryFloat

/-!
# Literal values

The values of number and string tokens.

* A number token is digits, an optional fraction and an optional exponent,
  with a suffix `L` (long) or `f` (float). Integers must fit their width after
  the sign is applied, so `-2147483648` is an `int` but `2147483648` is not.
  Floating values are rounded to nearest, ties to even, directly from the
  decimal text; one that rounds to infinity is out of range.
* A string token is decoded: `\n \t \r \0 \\ \"` stand for their characters,
  any other escape is kept as written, backslash included.
-/

namespace ClassCompiler.Syntax

/-- The value of a run of decimal digits. -/
def digitsValue (cs : List Char) : Nat :=
  cs.foldl (fun n c => n * 10 + (c.toNat - '0'.toNat)) 0

/-- A decimal number `mantissa · 10^exponent` read from `ddd.ddd[eE][+-]ddd`. -/
structure Decimal where
  mantissa : Nat
  exponent : Int
  deriving Repr

/-- Read a number as the scanner delivers it (suffix removed). -/
def Decimal.read (cs : List Char) : Decimal :=
  let whole := cs.takeWhile Char.isDigit
  let rest := cs.dropWhile Char.isDigit
  let (frac, rest) := match rest with
    | '.' :: r => (r.takeWhile Char.isDigit, r.dropWhile Char.isDigit)
    | _ => ([], rest)
  let expo : Int := match rest with
    | c :: r =>
      if c == 'e' || c == 'E' then
        match r with
        | '-' :: ds => -(digitsValue ds : Int)
        | '+' :: ds => digitsValue ds
        | ds => digitsValue ds
      else 0
    | [] => 0
  ⟨digitsValue (whole ++ frac), expo - frac.length⟩

/-- Bits of the value of `d` in a binary format with the given sign, or nothing
    when it rounds to infinity. -/
def Decimal.bits (f : BinaryFormat) (d : Decimal) (negate : Bool) : Option Nat :=
  let b := f.ofDecimal d.mantissa d.exponent
  if b == f.infBits then none else some (f.withSign negate b)

/-- Drop the trailing characters of a lexeme that satisfy `p`. -/
def dropSuffix (s : String) (p : Char → Bool) : List Char :=
  (s.toList.reverse.dropWhile p).reverse

/-- The value of a number token, its sign applied, or nothing when it does
    not fit its type. -/
def numberValue (kind : TokenKind) (lexeme : String) (negate : Bool) : Option Literal :=
  let sign : Int := if negate then -1 else 1
  match kind with
  | .intLit =>
    let v := sign * digitsValue lexeme.toList
    if -2147483648 ≤ v ∧ v ≤ 2147483647 then some (.int (Int32.ofInt v)) else none
  | .longLit =>
    let v := sign * digitsValue (dropSuffix lexeme (fun c => c == 'L' || c == 'l'))
    if -9223372036854775808 ≤ v ∧ v ≤ 9223372036854775807 then some (.long (Int64.ofInt v))
    else none
  | .floatLit =>
    (Decimal.read (dropSuffix lexeme (fun c => c == 'f' || c == 'F'))).bits BinaryFormat.single
      negate |>.map fun b => .float (UInt32.ofNat b)
  | _ =>
    (Decimal.read lexeme.toList).bits BinaryFormat.double negate |>.map fun b =>
      .double (UInt64.ofNat b)

/-- The word for a number token's type in messages. -/
def numberWord : TokenKind → String
  | .intLit => "int"
  | .longLit => "long"
  | .floatLit => "float"
  | _ => "double"

/-- Decode the escapes of a string body. -/
def decodeEscapes : List Char → List Char
  | [] => []
  | ['\\'] => ['\\']
  | '\\' :: c :: r =>
    let decoded := match c with
      | 'n' => ['\n']
      | 't' => ['\t']
      | 'r' => ['\r']
      | '0' => ['\x00']
      | '\\' => ['\\']
      | '"' => ['"']
      | other => ['\\', other]
    decoded ++ decodeEscapes r
  | c :: r => c :: decodeEscapes r

/-- The text of a string token: its quotes removed and its escapes decoded. -/
def decodeString (lexeme : String) : String :=
  let cs := lexeme.toList
  let inner := match cs with
    | '"' :: r => if r.getLast? == some '"' then r.dropLast else cs
    | _ => cs
  String.ofList (decodeEscapes inner)

end ClassCompiler.Syntax
