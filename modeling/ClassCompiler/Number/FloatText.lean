import ClassCompiler.Number.BinaryFloat

/-!
# The text of a floating-point number

The usual written form of a floating-point value: an optional sign, then
either `inf`, `infinity` or `nan` in any mix of cases, or digits with an
optional point and an optional exponent (`e` or `E`, an optional sign,
digits). At least one digit stands before or after the point; nothing may
follow the exponent.

* `FloatText.read?`: the text as a NaN, an infinity, or `± m · 10^k`;
* `FloatText.bits`: the bits of a format nearest to the value read, a NaN
  keeping its sign.
-/

namespace ClassCompiler

/-- What the text of a floating-point number says. -/
inductive FloatText where
  | nan (neg : Bool)
  | infinity (neg : Bool)
  /-- `± mantissa · 10^exponent`. -/
  | finite (neg : Bool) (mantissa : Nat) (exponent : Int)
  deriving DecidableEq, Repr

namespace FloatText

/-- The value of a run of decimal digits. -/
def digitsValue (cs : List Char) : Nat :=
  cs.foldl (fun n c => n * 10 + (c.toNat - '0'.toNat)) 0

/-- An exponent: an optional sign and at least one digit, and nothing after. -/
def exponent? (cs : List Char) : Option Int :=
  let (neg, ds) := match cs with
    | '-' :: r => (true, r)
    | '+' :: r => (false, r)
    | r => (false, r)
  if !ds.isEmpty && ds.all Char.isDigit then
    let v : Int := digitsValue ds
    some (if neg then -v else v)
  else none

/-- Digits with an optional point and an optional exponent, as `m · 10^k`. -/
def number? (cs : List Char) : Option (Nat × Int) :=
  let whole := cs.takeWhile Char.isDigit
  let rest := cs.dropWhile Char.isDigit
  let (frac, rest) := match rest with
    | '.' :: r => (r.takeWhile Char.isDigit, r.dropWhile Char.isDigit)
    | r => ([], r)
  if whole.isEmpty && frac.isEmpty then none
  else
    let exp? : Option Int := match rest with
      | [] => some 0
      | c :: r => if c == 'e' || c == 'E' then exponent? r else none
    exp?.map fun e => (digitsValue (whole ++ frac), e - frac.length)

/-- Read the text of a floating-point number. -/
def read? (s : String) : Option FloatText :=
  let (neg, body) := match s.toList with
    | '-' :: r => (true, r)
    | '+' :: r => (false, r)
    | r => (false, r)
  let word := String.ofList (body.map Char.toLower)
  if word == "inf" || word == "infinity" then some (.infinity neg)
  else if word == "nan" then some (.nan neg)
  else (number? body).map fun (m, k) => .finite neg m k

/-- The bits of `f` nearest to the value the text says. -/
def bits (f : BinaryFormat) : FloatText → Nat
  | .nan neg => f.withSign neg f.nanBits
  | .infinity neg => f.withSign neg f.infBits
  | .finite neg m k => f.withSign neg (f.ofDecimal m k)

theorem read?_nan : read? "NaN" = some (.nan false) := by decide

theorem read?_negInfinity : read? "-Infinity" = some (.infinity true) := by decide

end FloatText

end ClassCompiler
