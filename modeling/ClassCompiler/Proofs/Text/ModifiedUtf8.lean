import ClassCompiler.Proofs.ClassFile.PoolIndexes
import ClassCompiler.Proofs.Parsing.Spans
import Mathlib.Data.List.Basic

/-!
# Modified UTF-8, read back

A class file stores its texts in modified UTF-8. Read by the format's rules, a
byte `0xxxxxxx` other than zero is a UTF-16 code unit below `0x80`, two bytes
`110xxxxx 10xxxxxx` a unit below `0x800` (NUL included), and three bytes
`1110xxxx 10xxxxxx 10xxxxxx` any other unit; a high surrogate followed by a low
one is a character beyond the basic plane. No other byte sequence is a text, so
in particular no byte is zero or from `0xf0` up. `readModifiedUtf8` reads bytes
so, and `modifiedUtf8` writes what it reads back:

* `readUnits_unitBytes`, `unitsToChars_utf16Units`: one code unit, and one
  character, read back from what was written for it;
* `modifiedUtf8_allowed`: every byte written is one the format allows;
* `modifiedUtf8_eq_utf8_iff`: the written form is the standard UTF-8 form exactly
  for texts holding neither NUL nor a character beyond the basic plane;
* `utf8_constantTooLong_iff`: the pool refuses a text as too long exactly when its
  written form exceeds 65535 bytes;
* `modifiedUtf8_conforms`: these together.
-/

namespace ClassCompiler.Text

/-! ## Reading by the format's rules -/

/-- The UTF-16 code units of modified UTF-8 bytes. The masks of the format are
    written as arithmetic: `x % 32` is `x & 0x1f`, and `y / 64 = 2` says that `y`
    is `10xxxxxx`. -/
def readUnits : List UInt8 → Option (List Nat)
  | [] => some []
  | x :: bs =>
    if 0 < x.toNat ∧ x.toNat < 0x80 then (readUnits bs).map (x.toNat :: ·)
    else if x.toNat / 32 = 6 then
      match bs with
      | y :: bs =>
        if y.toNat / 64 = 2 then (readUnits bs).map (((x.toNat % 32) * 64 + y.toNat % 64) :: ·)
        else none
      | [] => none
    else if x.toNat / 16 = 14 then
      match bs with
      | y :: z :: bs =>
        if y.toNat / 64 = 2 ∧ z.toNat / 64 = 2 then
          (readUnits bs).map (((x.toNat % 16) * 4096 + (y.toNat % 64) * 64 + z.toNat % 64) :: ·)
        else none
      | _ => none
    else none

/-- The characters of UTF-16 code units: a high surrogate and the low surrogate
    after it are one character beyond the basic plane; a surrogate anywhere else
    is no character. -/
def unitsToChars : List Nat → Option (List Char)
  | [] => some []
  | u :: us =>
    if 0xD800 ≤ u ∧ u < 0xDC00 then
      match us with
      | v :: us =>
        if 0xDC00 ≤ v ∧ v < 0xE000 then
          (unitsToChars us).map (Char.ofNat (0x10000 + (u - 0xD800) * 0x400 + (v - 0xDC00)) :: ·)
        else none
      | [] => none
    else if 0xDC00 ≤ u ∧ u < 0xE000 then none
    else (unitsToChars us).map (Char.ofNat u :: ·)

/-- The text that modified UTF-8 bytes stand for, if any. -/
def readModifiedUtf8 (bs : List UInt8) : Option String :=
  ((readUnits bs).bind unitsToChars).map String.ofList

theorem readUnits_one {x : UInt8} (hx : 0 < x.toNat ∧ x.toNat < 0x80) (bs : List UInt8) :
    readUnits (x :: bs) = (readUnits bs).map (x.toNat :: ·) := by
  rw [readUnits.eq_def]
  simp only [if_pos hx]

theorem readUnits_two {x y : UInt8} (hx : x.toNat / 32 = 6) (hy : y.toNat / 64 = 2)
    (bs : List UInt8) :
    readUnits (x :: y :: bs) = (readUnits bs).map (((x.toNat % 32) * 64 + y.toNat % 64) :: ·) := by
  rw [readUnits, if_neg (by omega), if_pos hx]
  simp only [if_pos hy]

theorem readUnits_three {x y z : UInt8} (hx : x.toNat / 16 = 14) (hy : y.toNat / 64 = 2)
    (hz : z.toNat / 64 = 2) (bs : List UInt8) :
    readUnits (x :: y :: z :: bs) =
      (readUnits bs).map (((x.toNat % 16) * 4096 + (y.toNat % 64) * 64 + z.toNat % 64) :: ·) := by
  rw [readUnits, if_neg (by omega), if_neg (by omega), if_pos hx]
  simp only [if_pos (And.intro hy hz)]

theorem unitsToChars_bmp {u : Nat} (hu : u < 0xD800 ∨ 0xE000 ≤ u) (us : List Nat) :
    unitsToChars (u :: us) = (unitsToChars us).map (Char.ofNat u :: ·) := by
  rw [unitsToChars.eq_def]
  simp only [if_neg (show ¬(0xD800 ≤ u ∧ u < 0xDC00) by omega),
    if_neg (show ¬(0xDC00 ≤ u ∧ u < 0xE000) by omega)]

theorem unitsToChars_pair {u v : Nat} (hu : 0xD800 ≤ u ∧ u < 0xDC00)
    (hv : 0xDC00 ≤ v ∧ v < 0xE000) (us : List Nat) :
    unitsToChars (u :: v :: us) =
      (unitsToChars us).map (Char.ofNat (0x10000 + (u - 0xD800) * 0x400 + (v - 0xDC00)) :: ·) := by
  rw [unitsToChars.eq_def]
  simp only [if_pos hu, if_pos hv]

/-! ## The written units and characters -/

theorem toNat_toUInt8_of_lt {n : Nat} (h : n < 256) : n.toUInt8.toNat = n := by
  rw [Nat.toUInt8_eq, UInt8.toNat_ofNat', Nat.mod_eq_of_lt h]

/-- A character's code is a scalar value: below the surrogates, or above them and
    below `0x110000`. -/
theorem toNat_scalar (c : Char) : c.toNat < 0xD800 ∨ 0xDFFF < c.toNat ∧ c.toNat < 0x110000 := by
  have := c.valid
  simp only [UInt32.isValidChar, Nat.isValidChar] at this
  exact this

theorem utf16Units_of_lt {c : Char} (h : c.toNat < 0x10000) : utf16Units c = [c.toNat] := by
  simp only [utf16Units, if_pos h]

theorem utf16Units_of_ge {c : Char} (h : ¬c.toNat < 0x10000) :
    utf16Units c =
      [0xD800 + (c.toNat - 0x10000) / 0x400, 0xDC00 + (c.toNat - 0x10000) % 0x400] := by
  simp only [utf16Units, if_neg h]

theorem utf16Units_lt (c : Char) : ∀ u ∈ utf16Units c, u < 0x10000 := by
  have hc := toNat_scalar c
  by_cases h : c.toNat < 0x10000
  · simpa [utf16Units_of_lt h] using h
  · simp only [utf16Units_of_ge h, List.mem_cons, List.not_mem_nil, or_false]
    omega

theorem modifiedUtf8_eq_flatMap (s : String) :
    modifiedUtf8 s = (s.toList.flatMap utf16Units).flatMap unitBytes := by
  rw [modifiedUtf8, List.flatMap_assoc]

/-! ## Reading back -/

/-- The bytes of a unit read back as that unit, whatever follows them. -/
theorem readUnits_unitBytes {u : Nat} (hu : u < 0x10000) (rest : List UInt8) :
    readUnits (unitBytes u ++ rest) = (readUnits rest).map (u :: ·) := by
  unfold unitBytes
  split
  · rw [List.singleton_append, readUnits_one (by rw [toNat_toUInt8_of_lt (by omega)]; omega),
      toNat_toUInt8_of_lt (by omega)]
  · split
    · next h₁ h₂ =>
      have hx : (0xc0 + u / 64).toUInt8.toNat = 0xc0 + u / 64 := toNat_toUInt8_of_lt (by omega)
      have hy : (0x80 + u % 64).toUInt8.toNat = 0x80 + u % 64 := toNat_toUInt8_of_lt (by omega)
      have hu : (0xc0 + u / 64) % 32 * 64 + (0x80 + u % 64) % 64 = u := by omega
      rw [List.cons_append, List.singleton_append, readUnits_two (by omega) (by omega), hx, hy, hu]
    · next h₁ h₂ =>
      have hx : (0xe0 + u / 4096).toUInt8.toNat = 0xe0 + u / 4096 :=
        toNat_toUInt8_of_lt (by omega)
      have hy : (0x80 + u / 64 % 64).toUInt8.toNat = 0x80 + u / 64 % 64 :=
        toNat_toUInt8_of_lt (by omega)
      have hz : (0x80 + u % 64).toUInt8.toNat = 0x80 + u % 64 := toNat_toUInt8_of_lt (by omega)
      have hu : (0xe0 + u / 4096) % 16 * 4096 + (0x80 + u / 64 % 64) % 64 * 64 +
          (0x80 + u % 64) % 64 = u := by
        omega
      rw [List.cons_append, List.cons_append, List.singleton_append,
        readUnits_three (by omega) (by omega) (by omega), hx, hy, hz, hu]

theorem readUnits_flatMap_unitBytes {us : List Nat} (h : ∀ u ∈ us, u < 0x10000) :
    readUnits (us.flatMap unitBytes) = some us := by
  induction us with
  | nil => rfl
  | cons u us ih =>
    rw [List.flatMap_cons, readUnits_unitBytes (h u List.mem_cons_self),
      ih fun v hv => h v (List.mem_cons_of_mem _ hv)]
    rfl

/-- The units of a character read back as that character, whatever follows them. -/
theorem unitsToChars_utf16Units (c : Char) (rest : List Nat) :
    unitsToChars (utf16Units c ++ rest) = (unitsToChars rest).map (c :: ·) := by
  have hc := toNat_scalar c
  by_cases h : c.toNat < 0x10000
  · rw [utf16Units_of_lt h, List.singleton_append, unitsToChars_bmp (by omega), Char.ofNat_toNat]
  · -- beyond the basic plane: the pair recombines into the code it was cut from
    rw [utf16Units_of_ge h, List.cons_append, List.singleton_append,
      unitsToChars_pair (by omega) (by omega)]
    have hcode : 0x10000 + (0xD800 + (c.toNat - 0x10000) / 0x400 - 0xD800) * 0x400 +
        (0xDC00 + (c.toNat - 0x10000) % 0x400 - 0xDC00) = c.toNat := by omega
    rw [hcode, Char.ofNat_toNat]

theorem unitsToChars_flatMap_utf16Units (cs : List Char) :
    unitsToChars (cs.flatMap utf16Units) = some cs := by
  induction cs with
  | nil => rfl
  | cons c cs ih =>
    rw [List.flatMap_cons, unitsToChars_utf16Units, ih]
    rfl

theorem readModifiedUtf8_modifiedUtf8 (s : String) :
    readModifiedUtf8 (modifiedUtf8 s) = some s := by
  have hlt : ∀ u ∈ s.toList.flatMap utf16Units, u < 0x10000 := by
    intro u hu
    obtain ⟨c, -, hc⟩ := List.mem_flatMap.1 hu
    exact utf16Units_lt c u hc
  rw [readModifiedUtf8, modifiedUtf8_eq_flatMap, readUnits_flatMap_unitBytes hlt, Option.bind_some,
    unitsToChars_flatMap_utf16Units, Option.map_some, String.ofList_toList]

/-- The surrogate pair of U+1F600 reads back as that one character. -/
example : readModifiedUtf8 [0xed, 0xa0, 0xbd, 0xed, 0xb8, 0x80] = some "😀" := by decide

/-! ## The bytes written -/

/-- Every byte of a unit below `0x10000` is one the format allows: neither zero
    nor from `0xf0` up. -/
theorem unitBytes_allowed {u : Nat} (hu : u < 0x10000) :
    ∀ b ∈ unitBytes u, 0 < b.toNat ∧ b.toNat < 0xf0 := by
  unfold unitBytes
  split
  · simp only [List.mem_singleton]
    rintro b rfl
    rw [toNat_toUInt8_of_lt (by omega)]
    omega
  · split
    · simp only [List.mem_cons, List.not_mem_nil, or_false]
      rintro b (rfl | rfl) <;> rw [toNat_toUInt8_of_lt (by omega)] <;> omega
    · simp only [List.mem_cons, List.not_mem_nil, or_false]
      rintro b (rfl | rfl | rfl) <;> rw [toNat_toUInt8_of_lt (by omega)] <;> omega

theorem modifiedUtf8_allowed (s : String) :
    ∀ b ∈ modifiedUtf8 s, 0 < b.toNat ∧ b.toNat < 0xf0 := by
  intro b hb
  rw [modifiedUtf8_eq_flatMap] at hb
  obtain ⟨u, hu, hb⟩ := List.mem_flatMap.1 hb
  obtain ⟨c, -, hc⟩ := List.mem_flatMap.1 hu
  exact unitBytes_allowed (utf16Units_lt c u hc) b hb

/-! ## Against standard UTF-8 -/

/-- In the basic plane and away from NUL, a character has the same bytes in both
    encodings. -/
theorem unitBytes_eq_utf8EncodeChar {c : Char} (h0 : c ≠ '\x00') (h : c.toNat < 0x10000) :
    (utf16Units c).flatMap unitBytes = String.utf8EncodeChar c := by
  have hn : 0 < c.toNat := Nat.pos_of_ne_zero fun hz => h0 (Char.toNat_inj.1 hz)
  rw [utf16Units_of_lt h, List.flatMap_singleton]
  simp only [unitBytes, String.utf8EncodeChar, Char.toNat_val, Nat.toUInt8_eq]
  by_cases h1 : c.toNat ≤ 0x7f
  · rw [if_pos ⟨hn, h1⟩, if_pos h1]
  · by_cases h2 : c.toNat ≤ 0x7ff
    · rw [if_neg (by omega), if_pos h2, if_neg h1, if_pos h2]
      have ha : 0xc0 + c.toNat / 64 = c.toNat / 64 % 0x20 + 0xc0 := by omega
      have hb : 0x80 + c.toNat % 64 = c.toNat % 0x40 + 0x80 := by omega
      rw [ha, hb]
    · rw [if_neg (by omega), if_neg h2, if_neg h1, if_neg h2, if_pos (by omega)]
      have ha : 0xe0 + c.toNat / 4096 = c.toNat / 4096 % 0x10 + 0xe0 := by omega
      have hb : 0x80 + c.toNat / 64 % 64 = c.toNat / 64 % 0x40 + 0x80 := by omega
      have hc : 0x80 + c.toNat % 64 = c.toNat % 0x40 + 0x80 := by omega
      rw [ha, hb, hc]

/-- Beyond the basic plane, standard UTF-8 starts a character with a byte from
    `0xf0` up. -/
theorem utf8EncodeChar_head_of_supplementary {c : Char} (h : 0x10000 ≤ c.toNat) :
    ∃ b ∈ String.utf8EncodeChar c, 0xf0 ≤ b.toNat := by
  have hc := toNat_scalar c
  refine ⟨UInt8.ofNat (c.toNat / 262144 % 8 + 0xf0), ?_, ?_⟩
  · simp only [String.utf8EncodeChar, Char.toNat_val, if_neg (show ¬c.toNat ≤ 0x7f by omega),
      if_neg (show ¬c.toNat ≤ 0x7ff by omega), if_neg (show ¬c.toNat ≤ 0xffff by omega),
      List.mem_cons, true_or]
  · rw [UInt8.toNat_ofNat', Nat.mod_eq_of_lt (by omega)]
    omega

theorem modifiedUtf8_eq_utf8_iff (s : String) :
    modifiedUtf8 s = s.toUTF8.data.toList ↔
      '\x00' ∉ s.toList ∧ ∀ c ∈ s.toList, c.toNat < 0x10000 := by
  rw [toUTF8_eq_utf8Bytes, utf8Bytes]
  constructor
  · -- a NUL puts a zero byte, and a character beyond the basic plane a byte from
    -- `0xf0` up, into the standard form; the modified form has neither
    intro heq
    have hbytes := modifiedUtf8_allowed s
    rw [heq] at hbytes
    refine ⟨fun hz => ?_, fun c hc => ?_⟩
    · have h0 := hbytes 0 (List.mem_flatMap.2 ⟨'\x00', hz, by decide⟩)
      simp at h0
    · refine Nat.lt_of_not_le fun hge => ?_
      obtain ⟨b, hb, hge⟩ := utf8EncodeChar_head_of_supplementary hge
      have := hbytes b (List.mem_flatMap.2 ⟨c, hc, hb⟩)
      omega
  · rintro ⟨hz, hbmp⟩
    rw [modifiedUtf8]
    refine List.flatMap_congr fun c hc => unitBytes_eq_utf8EncodeChar ?_ (hbmp c hc)
    rintro rfl
    exact hz hc

/-! ## The pool's length check -/

theorem utf8_constantTooLong_iff (p : Pool) (s : String) :
    (∃ n, p.utf8 s = .error (.constantTooLong n)) ↔ 65535 < modifiedUtf8Length s := by
  constructor
  · rintro ⟨n, h⟩
    rcases Pool.utf8_error h with ⟨-, hlong⟩ | hover
    · exact hlong
    · cases hover
  · intro hlong
    exact ⟨modifiedUtf8Length s, by simp only [Pool.utf8, if_pos hlong]⟩

/-- Modified UTF-8 is what the class-file format reads: no byte is zero, the bytes
    read back as the text, they are its standard UTF-8 exactly when it holds neither
    NUL nor a character beyond the basic plane, and the pool refuses the text as too
    long exactly when they are more than 65535. -/
theorem modifiedUtf8_conforms (s : String) :
    (0 : UInt8) ∉ modifiedUtf8 s ∧
    readModifiedUtf8 (modifiedUtf8 s) = some s ∧
    (modifiedUtf8 s = s.toUTF8.data.toList ↔
      '\x00' ∉ s.toList ∧ ∀ c ∈ s.toList, c.toNat < 0x10000) ∧
    ∀ p : Pool, (∃ n, p.utf8 s = .error (.constantTooLong n)) ↔ 65535 < modifiedUtf8Length s :=
  ⟨fun h => absurd (modifiedUtf8_allowed s 0 h).1 (by decide), readModifiedUtf8_modifiedUtf8 s,
    modifiedUtf8_eq_utf8_iff s, fun p => utf8_constantTooLong_iff p s⟩

end ClassCompiler.Text
