/-!
# Modified UTF-8

The byte encoding of strings inside class files. A string is first cut into
UTF-16 code units (a character beyond the basic plane becomes a surrogate
pair); then each unit from 1 to 0x7f is one byte, NUL and the units up to
0x7ff are two bytes, and all other units, surrogates included, three bytes.
So no encoded string holds a zero byte.
-/

namespace ClassCompiler.Text

/-- The UTF-16 code units of a character: one unit in the basic plane, a
    surrogate pair beyond it. -/
def utf16Units (c : Char) : List Nat :=
  let n := c.toNat
  if n < 0x10000 then [n]
  else
    let m := n - 0x10000
    [0xD800 + m / 0x400, 0xDC00 + m % 0x400]

/-- The bytes of one UTF-16 code unit. -/
def unitBytes (u : Nat) : List UInt8 :=
  if 1 ≤ u ∧ u ≤ 0x7f then [u.toUInt8]
  else if u ≤ 0x7ff then
    [(0xc0 + u / 64).toUInt8, (0x80 + u % 64).toUInt8]
  else
    [(0xe0 + u / 4096).toUInt8, (0x80 + (u / 64) % 64).toUInt8, (0x80 + u % 64).toUInt8]

/-- The modified UTF-8 bytes of a string. -/
def modifiedUtf8 (s : String) : List UInt8 :=
  s.toList.flatMap fun c => (utf16Units c).flatMap unitBytes

/-- The length in bytes of the modified UTF-8 form of a string. -/
def modifiedUtf8Length (s : String) : Nat := (modifiedUtf8 s).length

theorem unitBytes_length_pos (u : Nat) : 0 < (unitBytes u).length := by
  unfold unitBytes; split
  · simp
  · split <;> simp

end ClassCompiler.Text
