import Mathlib
import ClassCompiler.Source.ParseError

/-!
# The snippet under a parse report

A rendered report quotes the line it points into and marks the span under it.
The quoted line stands behind the line number, right-aligned in three places,
and `" | "`; the marker line behind the fixed `"  | "` and one blank per column
before the span's, then `^` and a `~` under each further byte of the span.

The two gutters differ in width, so the `^` does not stand under the byte it
marks: it stands `(padLeft3 line).length - 1` places to its left, two for the
lines 1 to 999 and more beyond.

* `padLeft3_length`: a line number takes at least three places;
* `render_snippet`: the quoted line, verbatim behind its gutter, and the
  marker line with its `^` and `~`s, end every report on a line of the text;
* `render_marker_left_of_column`: the `^` stands left of the byte it marks.
-/

namespace ClassCompiler

namespace ParseError

/-- A line number takes at least three places, more from 1000 on. -/
theorem padLeft3_length (n : Nat) : 3 ≤ (padLeft3 n).length ∧ (toString n).length ≤ (padLeft3 n).length := by
  simp only [padLeft3, String.length_append, String.length_ofList, List.length_replicate]
  omega

/-- The marker of a span: `^` and a `~` under each further byte. -/
theorem marker_toList (len : Nat) :
    (if len ≤ 1 then "^" else "^" ++ String.ofList (List.replicate (len - 1) '~')).toList =
      '^' :: List.replicate (len - 1) '~' := by
  split
  · rename_i h
    rw [Nat.sub_eq_zero_of_le h]
    rfl
  · simp [String.toList_append]

/-- The quoted line: behind the line number, right-aligned in three places,
    and `" | "`. -/
theorem quote_toList (n : Nat) (text : String) :
    (padLeft3 n ++ " | " ++ text).toList = (padLeft3 n ++ " | ").toList ++ text.toList :=
  String.toList_append

theorem gutter_length (n : Nat) : (padLeft3 n ++ " | ").toList.length = (padLeft3 n).length + 3 := by
  simp [String.toList_append, String.length_toList]

/-- What ends a text's second part ends the text. -/
theorem suffix_toList_append {l : List Char} (a b : String) (h : l <:+ b.toList) : l <:+ (a ++ b).toList := by
  rw [String.toList_append]
  exact h.trans (List.suffix_append _ _)

/-- A report on a line of the text ends with that line, verbatim behind its
    gutter, and the marker line: `"  | "`, a blank for each column before the
    span's, `^`, and `len - 1` times `~`. -/
theorem render_snippet (e : ParseError) (src text : String) (hline : 1 ≤ e.span.line)
    (htext : (sourceLines src)[e.span.line - 1]? = some text) (hcol : 1 ≤ e.span.col) :
    (padLeft3 e.span.line ++ " | " ++ text).toList ++ '\n' ::
        ("  | ".toList ++ List.replicate (e.span.col - 1) ' ' ++ '^' :: List.replicate (e.span.len - 1) '~') ++
        ['\n'] <:+ (e.render src).toList := by
  obtain ⟨l, hl⟩ : ∃ l, e.span.line = l + 1 := ⟨e.span.line - 1, by omega⟩
  rw [hl, Nat.add_sub_cancel] at htext
  have hmax : max e.span.col 1 = e.span.col := Nat.max_eq_left hcol
  have hnl : "\n".toList = ['\n'] := by decide
  -- the report is its header and message, then the snippet
  unfold render
  simp only [hl, htext, hmax]
  apply suffix_toList_append
  simp only [String.toList_append, marker_toList, String.toList_ofList, hnl, List.append_assoc,
    List.cons_append, List.nil_append]
  exact List.suffix_append _ _

/-- The `^` of a report stands left of the byte of the column in the quoted
    line: by `(padLeft3 line).length - 1` places, at least two. -/
theorem render_marker_left_of_column (e : ParseError) (src text : String) (hline : 1 ≤ e.span.line)
    (htext : (sourceLines src)[e.span.line - 1]? = some text) (hcol : 1 ≤ e.span.col)
    (hin : e.span.col ≤ text.length) :
    ∃ quote marker : List Char,
      quote ++ '\n' :: marker ++ ['\n'] <:+ (e.render src).toList ∧
      quote[(padLeft3 e.span.line).length + 2 + e.span.col]? = text.toList[e.span.col - 1]? ∧
      (text.toList[e.span.col - 1]?).isSome ∧
      marker[e.span.col + 3]? = some '^' ∧
      e.span.col + 3 + 2 ≤ (padLeft3 e.span.line).length + 2 + e.span.col := by
  have hlead : ("  | ".toList ++ List.replicate (e.span.col - 1) ' ').length = e.span.col + 3 := by
    rw [List.length_append, List.length_replicate]
    have : "  | ".toList.length = 4 := rfl
    omega
  have hgutter := gutter_length e.span.line
  refine ⟨_, _, render_snippet e src text hline htext hcol, ?_, ?_, ?_,
    by have := (padLeft3_length e.span.line).1; omega⟩
  · -- the byte of the column, past the gutter
    rw [quote_toList, List.getElem?_append_right (by omega), hgutter,
      show (padLeft3 e.span.line).length + 2 + e.span.col - ((padLeft3 e.span.line).length + 3) =
        e.span.col - 1 by omega]
  · have hlt : e.span.col - 1 < text.toList.length := by
      rw [String.length_toList]
      omega
    simp [hlt]
  · rw [List.getElem?_append_right (by omega), hlead, Nat.sub_self]
    rfl

end ParseError

end ClassCompiler
