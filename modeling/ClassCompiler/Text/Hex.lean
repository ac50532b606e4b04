/-!
# Hexadecimal text

Lowercase hexadecimal digits for bytes and for numbers. A byte is always two
digits; `Text.hexDigits` writes a number without leading zeros, and
`Text.hexPadded` pads it with zeros to a fixed width.
-/

namespace ClassCompiler.Text

/-- The lowercase hexadecimal digit of a number below 16. -/
def hexDigit (n : Nat) : Char :=
  if n < 10 then Char.ofNat (48 + n) else Char.ofNat (87 + n)

/-- The digits of `n` in base 16, most significant first, without leading zeros;
    zero is the single digit `0`. -/
def hexDigits (n : Nat) : List Char :=
  if n < 16 then [hexDigit n]
  else hexDigits (n / 16) ++ [hexDigit (n % 16)]
termination_by n
decreasing_by omega

/-- The digits of `n` in base 16 padded with zeros on the left to `width` digits. -/
def hexPadded (width n : Nat) : String :=
  let ds := hexDigits n
  String.ofList (List.replicate (width - ds.length) '0' ++ ds)

/-- A byte as two lowercase hexadecimal digits. -/
def hexByte (b : UInt8) : String :=
  String.ofList [hexDigit (b.toNat / 16), hexDigit (b.toNat % 16)]

/-- Bytes as lowercase hexadecimal text, two digits a byte. -/
def hexBytes (bs : Array UInt8) : String :=
  bs.foldl (fun acc b => acc ++ hexByte b) ""

theorem hexDigits_ne_nil (n : Nat) : hexDigits n ≠ [] := by
  unfold hexDigits; split <;> simp

end ClassCompiler.Text
