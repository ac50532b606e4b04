/-!
# Binary floating-point formats

The IEEE 754 binary interchange formats by the widths of their fields, what a
bit pattern stands for, and correct rounding of an exact positive rational to
the nearest representable value (a tie goes to the even significand).

* `BinaryFormat.decode`: a bit pattern as NaN, an infinity, or
  `± m · 2^e` with the significand `m` and exponent `e` read off the fields;
* `BinaryFormat.roundRatio`: the bits nearest to `num / den`;
* `BinaryFormat.ofDecimal`: the bits nearest to `n · 10^k`, the reading of a
  decimal literal;
* `BinaryFormat.narrow`: the bits nearest to a value of a wider format.
-/

namespace ClassCompiler

/-- A binary interchange format: the widths of its exponent and fraction fields. -/
structure BinaryFormat where
  expBits : Nat
  fracBits : Nat
  deriving DecidableEq, Repr

namespace BinaryFormat

/-- The 32-bit format. -/
def single : BinaryFormat := ⟨8, 23⟩

/-- The 64-bit format. -/
def double : BinaryFormat := ⟨11, 52⟩

/-- The exponent bias. -/
def bias (f : BinaryFormat) : Nat := Nat.pow 2 (f.expBits - 1) - 1

/-- The all-ones exponent field of infinities and NaNs. -/
def maxField (f : BinaryFormat) : Nat := Nat.pow 2 f.expBits - 1

/-- The bit of the sign. -/
def signBit (f : BinaryFormat) : Nat := Nat.pow 2 (f.expBits + f.fracBits)

/-- The bits of positive infinity. -/
def infBits (f : BinaryFormat) : Nat := f.maxField * Nat.pow 2 f.fracBits

/-- The bits of the quiet NaN with no payload. -/
def nanBits (f : BinaryFormat) : Nat := f.infBits + Nat.pow 2 (f.fracBits - 1)

/-- What a bit pattern stands for. -/
inductive Value where
  | nan
  | inf (neg : Bool)
  /-- `(-1)^neg · m · 2^e`; zero has `m = 0`. -/
  | finite (neg : Bool) (m : Nat) (e : Int)
  deriving DecidableEq, Repr

/-- The sign, the exponent field and the fraction field of a bit pattern. -/
def fields (f : BinaryFormat) (bits : Nat) : Bool × Nat × Nat :=
  let frac := bits % Nat.pow 2 f.fracBits
  let expField := (bits / Nat.pow 2 f.fracBits) % Nat.pow 2 f.expBits
  let neg := (bits / f.signBit) % 2 == 1
  (neg, expField, frac)

/-- What the bits stand for. A subnormal has the exponent of the least normal
    exponent field and no implicit leading bit. -/
def decode (f : BinaryFormat) (bits : Nat) : Value :=
  let (neg, expField, frac) := f.fields bits
  if expField = f.maxField then
    if frac = 0 then .inf neg else .nan
  else if expField = 0 then
    .finite neg frac (1 - (f.bias : Int) - f.fracBits)
  else
    .finite neg (frac + Nat.pow 2 f.fracBits) ((expField : Int) - f.bias - f.fracBits)

/-- Whether `num / den ≥ 2 ^ k`. -/
def atLeastPow2 (num den : Nat) (k : Int) : Bool :=
  num * Nat.pow 2 (-k).toNat ≥ den * Nat.pow 2 k.toNat

/-- `⌊log₂ (num / den)⌋` for a positive ratio. -/
def log2Ratio (num den : Nat) : Int :=
  let k : Int := (Nat.log2 num : Int) - Nat.log2 den
  if atLeastPow2 num den k then k else k - 1

/-- The quotient `num / den` rounded to the nearest natural number, a tie to the
    even one. -/
def roundHalfEven (num den : Nat) : Nat :=
  let q := num / den
  let r := num % den
  if 2 * r > den ∨ (2 * r = den ∧ q % 2 = 1) then q + 1 else q

/-- The bits, sign excluded, of the representable value nearest to the positive
    ratio `num / den`; a value too large for the format becomes infinity. -/
def roundRatio (f : BinaryFormat) (num den : Nat) : Nat :=
  if num = 0 ∨ den = 0 then 0
  else
    let minExp : Int := 1 - (f.bias : Int)
    let exp := max (log2Ratio num den) minExp
    -- the significand counts units of 2^(exp - fracBits)
    let shift : Int := exp - f.fracBits
    let q := roundHalfEven (num * Nat.pow 2 (-shift).toNat) (den * Nat.pow 2 shift.toNat)
    let (q, exp) := if q = Nat.pow 2 (f.fracBits + 1) then (q / 2, exp + 1) else (q, exp)
    if exp > (f.bias : Int) then f.infBits
    else if q < Nat.pow 2 f.fracBits then q
    else (exp + f.bias).toNat * Nat.pow 2 f.fracBits + (q - Nat.pow 2 f.fracBits)

/-- Attach a sign to bits without one. -/
def withSign (f : BinaryFormat) (neg : Bool) (bits : Nat) : Nat :=
  if neg then bits + f.signBit else bits

/-- The number of decimal digits of a positive number. -/
def decimalLength (n : Nat) : Nat := (Nat.toDigits 10 n).length

/-- The bits nearest to `n · 10^k`, sign excluded. A value whose decimal exponent
    lies far outside every format is settled without computing its powers. -/
def ofDecimal (f : BinaryFormat) (n : Nat) (k : Int) : Nat :=
  if n = 0 then 0
  else
    let top := k + decimalLength n
    if top > 400 then f.infBits
    else if top < -400 then 0
    else f.roundRatio (n * Nat.pow 10 k.toNat) (Nat.pow 10 (-k).toNat)

/-- The bits of `dst` nearest to the value of the bits `bits` of `src`; a NaN
    becomes the default NaN of `dst` with the same sign. -/
def narrow (src dst : BinaryFormat) (bits : Nat) : Nat :=
  match src.decode bits with
  | .nan => dst.withSign (src.fields bits).1 dst.nanBits
  | .inf neg => dst.withSign neg dst.infBits
  | .finite neg m e =>
    dst.withSign neg (dst.roundRatio (m * Nat.pow 2 e.toNat) (Nat.pow 2 (-e).toNat))

/-- Whether bits stand for a NaN. -/
def isNaN (f : BinaryFormat) (bits : Nat) : Bool :=
  f.decode bits == .nan

/-- Whether bits stand for positive or negative zero. -/
def isZero (f : BinaryFormat) (bits : Nat) : Bool :=
  bits % f.signBit == 0

theorem roundHalfEven_le (num den : Nat) : roundHalfEven num den ≤ num / den + 1 := by
  unfold roundHalfEven
  simp only
  split <;> omega

end BinaryFormat

end ClassCompiler
