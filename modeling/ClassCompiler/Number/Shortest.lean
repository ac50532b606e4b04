import ClassCompiler.Number.BinaryFloat

/-!
# Shortest decimal text of binary floats

The decimal text that reads back to a given value with the fewest significant
digits. Every value of a binary format stands for the interval of reals that
round to it (the ends belong to it when the significand is even); among the
decimals with fewest digits inside it, the one nearest the value is written,
and of two equally near the larger. The text is positional: no exponent, no
trailing zeros after a point, and no point at all for a whole number.

* `shortestDigits`: the digits `d₁ … dₙ` and exponent `k` with value
  `0.d₁…dₙ · 10^k`;
* `BinaryFormat.decimalText`: the full text, with `NaN`, `inf` and a minus
  sign (also for negative zero).
-/

namespace ClassCompiler

/-- A non-negative rational as numerator and denominator. -/
structure Ratio where
  num : Nat
  den : Nat

namespace Ratio

/-- `a < b`. -/
def lt (a b : Ratio) : Bool := a.num * b.den < b.num * a.den

/-- `a ≤ b`. -/
def le (a b : Ratio) : Bool := a.num * b.den ≤ b.num * a.den

/-- `c · 10^j`. -/
def scaled (c : Nat) (j : Int) : Ratio := ⟨c * Nat.pow 10 j.toNat, Nat.pow 10 (-j).toNat⟩

/-- `m · 2^e`. -/
def binary (m : Nat) (e : Int) : Ratio := ⟨m * Nat.pow 2 e.toNat, Nat.pow 2 (-e).toNat⟩

/-- `|a - b|` compared: whether `|a - v| < |b - v|`, for `a ≤ v ≤ b`. -/
def closerBelow (a v b : Ratio) : Bool :=
  -- v - a < b - v  ⇔  2v < a + b
  2 * v.num * (a.den * b.den) < (a.num * b.den + b.num * a.den) * v.den

end Ratio

/-- The interval of reals that round to a value, with the value itself. -/
structure RoundingInterval where
  low : Ratio
  value : Ratio
  high : Ratio
  inclusive : Bool

namespace RoundingInterval

/-- Whether a rational lies in the interval. -/
def contains (i : RoundingInterval) (x : Ratio) : Bool :=
  if i.inclusive then i.low.le x && x.le i.high
  else i.low.lt x && x.lt i.high

end RoundingInterval

/-- The interval of the finite positive value `m · 2^e` of a format. Normal
    values whose significand is the implicit bit alone have a lower neighbour
    twice as close. -/
def roundingInterval (f : BinaryFormat) (m : Nat) (e : Int) : RoundingInterval :=
  let normal := m ≥ Nat.pow 2 f.fracBits
  if normal ∧ m = Nat.pow 2 f.fracBits then
    { low := Ratio.binary (4 * m - 1) (e - 2), value := Ratio.binary m e,
      high := Ratio.binary (2 * m + 1) (e - 1), inclusive := m % 2 == 0 }
  else
    { low := Ratio.binary (2 * m - 1) (e - 1), value := Ratio.binary m e,
      high := Ratio.binary (2 * m + 1) (e - 1),
      inclusive := !normal || m % 2 == 0 }

/-- The exponent `k` with `10^(k-1) ≤ v < 10^k`, found from an estimate by
    at most `fuel` single steps. -/
def decimalExponent (v : Ratio) : Nat → Int → Int
  | 0, k => k
  | fuel + 1, k =>
    if v.lt (Ratio.scaled 1 (k - 1)) then decimalExponent v fuel (k - 1)
    else if (Ratio.scaled 1 k).le v then decimalExponent v fuel (k + 1)
    else k

/-- The decimal digits of a number, most significant first. -/
def digitsOf (n : Nat) : List Nat :=
  (Nat.toDigits 10 n).map fun c => c.toNat - 48

/-- Drop trailing zero digits. -/
def dropTrailingZeros (ds : List Nat) : List Nat :=
  (ds.reverse.dropWhile (· == 0)).reverse

/-- The candidate `c · 10^j` as digits and exponent `k`, value `0.d₁…dₙ · 10^k`. -/
def candidateDigits (c : Nat) (j : Int) : List Nat × Int :=
  let ds := digitsOf c
  (dropTrailingZeros ds, j + ds.length)

/-- Search the grids of `n, n+1, …` significant digits, at most `fuel` of them,
    for the first that has a point in the interval next to the value. -/
def searchGrids (i : RoundingInterval) (k : Int) : Nat → Nat → Option (List Nat × Int)
  | 0, _ => none
  | fuel + 1, n =>
    let j : Int := k - n
    let v := i.value
    -- the grid points just below and just above the value
    let t := (v.num * Nat.pow 10 (-j).toNat) / (v.den * Nat.pow 10 j.toNat)
    let below := Ratio.scaled t j
    let above := Ratio.scaled (t + 1) j
    let okBelow := i.contains below
    let okAbove := i.contains above
    if okBelow && okAbove then
      if Ratio.closerBelow below v above then some (candidateDigits t j)
      else some (candidateDigits (t + 1) j)
    else if okBelow then some (candidateDigits t j)
    else if okAbove then some (candidateDigits (t + 1) j)
    else searchGrids i k fuel (n + 1)

/-- The shortest digits of the positive value `m · 2^e` of a format, and the
    exponent `k` with value `0.d₁…dₙ · 10^k`. -/
def shortestDigits (f : BinaryFormat) (m : Nat) (e : Int) : List Nat × Int :=
  let i := roundingInterval f m e
  let v := i.value
  let estimate : Int := ((Nat.log2 v.num : Int) - Nat.log2 v.den) * 30103 / 100000
  let k := decimalExponent v 8 (estimate + 1)
  match searchGrids i k 40 1 with
  | some r => r
  | none => (digitsOf m, 0)

/-- Digits and exponent as positional text: `0.00ddd`, `dd.ddd` or `ddd000`. -/
def positional (ds : List Nat) (k : Int) : String :=
  let digits := ds.map fun d => Char.ofNat (48 + d)
  let n := ds.length
  if k ≤ 0 then
    String.ofList (['0', '.'] ++ List.replicate (-k).toNat '0' ++ digits)
  else if k.toNat < n then
    String.ofList (digits.take k.toNat ++ ['.'] ++ digits.drop k.toNat)
  else
    String.ofList (digits ++ List.replicate (k.toNat - n) '0')

namespace BinaryFormat

/-- The shortest positional decimal text of the value of some bits. -/
def decimalText (f : BinaryFormat) (bits : Nat) : String :=
  match f.decode bits with
  | .nan => "NaN"
  | .inf neg => if neg then "-inf" else "inf"
  | .finite neg m e =>
    let sign := if neg then "-" else ""
    if m = 0 then sign ++ "0"
    else
      let (ds, k) := shortestDigits f m e
      sign ++ positional ds k

end BinaryFormat

end ClassCompiler
