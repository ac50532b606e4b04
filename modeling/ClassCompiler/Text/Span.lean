/-!
# Source spans

A span locates a piece of source text: the line and column where it starts,
both counted from 1, and its length. Columns and lengths count UTF-8 bytes, so
a character of several bytes moves the column by all of them.

* `Span.merge`: the span covering two spans of one line, or the first span
  grown by the second's length when they lie on different lines.
* `Span.position`: the `line:col` text used in messages.
-/

namespace ClassCompiler

/-- A piece of source text: start line, start column (UTF-8 bytes, from 1) and
    length in bytes. -/
structure Span where
  line : Nat
  col : Nat
  len : Nat
  deriving DecidableEq, Repr, Inhabited

namespace Span

/-- The empty span at a position. -/
def point (line col : Nat) : Span := ⟨line, col, 0⟩

/-- The span covering `a` and `b`. On one line it runs from the leftmost start
    to the rightmost end; across lines it keeps `a`'s start and adds the lengths. -/
def merge (a b : Span) : Span :=
  if a.line = b.line then
    let start := min a.col b.col
    let stop := max (b.col + b.len) (a.col + a.len)
    ⟨a.line, start, stop - start⟩
  else
    ⟨a.line, a.col, a.len + b.len⟩

/-- The position of a span as `line:col`. -/
def position (s : Span) : String := s!"{s.line}:{s.col}"

theorem merge_line (a b : Span) : (a.merge b).line = a.line := by
  unfold merge; split <;> rfl

theorem merge_self (a : Span) : a.merge a = a := by
  simp [merge]

end Span

end ClassCompiler
