/-!
# Big-endian byte output

Appending numbers of one, two, four and eight bytes, most significant byte
first, to a byte array. A number too wide for its field keeps its low bytes.
-/

namespace ClassCompiler.Bytes

/-- Append the low `width` bytes of `n`, most significant first. -/
def putBE (out : Array UInt8) (width n : Nat) : Array UInt8 :=
  (List.range width).foldl (fun acc i => acc.push (n / Nat.pow 256 (width - 1 - i) % 256).toUInt8) out

def u8 (out : Array UInt8) (n : Nat) : Array UInt8 := out.push (n % 256).toUInt8
def u16 (out : Array UInt8) (n : Nat) : Array UInt8 := putBE out 2 n
def u32 (out : Array UInt8) (n : Nat) : Array UInt8 := putBE out 4 n
def u64 (out : Array UInt8) (n : Nat) : Array UInt8 := putBE out 8 n

/-- Append the two's-complement form of an integer in `width` bytes. -/
def signed (out : Array UInt8) (width : Nat) (v : Int) : Array UInt8 :=
  putBE out width (v % (Nat.pow 256 width : Nat)).toNat

theorem size_foldl_push (f : Nat → UInt8) (l : List Nat) (out : Array UInt8) :
    (l.foldl (fun acc i => acc.push (f i)) out).size = out.size + l.length := by
  induction l generalizing out with
  | nil => simp
  | cons a l ih => simp only [List.foldl, ih, Array.size_push, List.length_cons]; omega

theorem size_putBE (out : Array UInt8) (width n : Nat) :
    (putBE out width n).size = out.size + width := by
  unfold putBE
  rw [size_foldl_push, List.length_range]

end ClassCompiler.Bytes
