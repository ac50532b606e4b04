import ClassCompiler.Text.Hex
import ClassCompiler.Text.Unprintable
import ClassCompiler.Text.GraphemeExtend

/-!
# Quoted text for readers

A string written between double quotes so that a reader sees every character:
the quote, the backslash, NUL, tab, carriage return and line feed get a
backslash escape; a character that is not printable, or that would join the
character before it, is written `\u` followed by its code point in lowercase
hexadecimal between braces; everything else stands as it is.
-/

namespace ClassCompiler.Text

/-- How one character is written between the quotes. -/
def quoteChar (c : Char) : List Char :=
  if c = '\x00' then ['\\', '0']
  else if c = '\t' then ['\\', 't']
  else if c = '\r' then ['\\', 'r']
  else if c = '\n' then ['\\', 'n']
  else if c = '\\' then ['\\', '\\']
  else if c = '"' then ['\\', '"']
  else if isGraphemeExtend c || !isPrintable c then
    ['\\', 'u', '\x7b'] ++ hexDigits c.toNat ++ ['\x7d']
  else [c]

/-- A string between double quotes, each character written by `quoteChar`. -/
def quoted (s : String) : String :=
  String.ofList ('"' :: (s.toList.flatMap quoteChar ++ ['"']))

theorem quoteChar_plain {c : Char} (h : 0x20 ≤ c.toNat ∧ c.toNat < 0x7f)
    (hq : c ≠ '"') (hb : c ≠ '\\') : quoteChar c = [c] := by
  have h0 : c ≠ '\x00' := by intro e; subst e; simp at h
  have ht : c ≠ '\t' := by intro e; subst e; simp at h
  have hr : c ≠ '\r' := by intro e; subst e; simp at h
  have hn : c ≠ '\n' := by intro e; subst e; simp at h
  have hp : isPrintable c = true := by
    unfold isPrintable; simp only
    rw [if_neg (by omega), if_pos h.2]
  have hg : isGraphemeExtend c = false := by
    unfold isGraphemeExtend; simp only
    have : ¬ (c.toNat ≥ 0x300) := by omega
    simp [this]
  simp [quoteChar, h0, ht, hr, hn, hb, hq, hp, hg]

end ClassCompiler.Text
