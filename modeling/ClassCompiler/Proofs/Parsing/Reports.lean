import ClassCompiler.Proofs.Parsing.Declarations
import ClassCompiler.Proofs.Parsing.Scanning

/-!
# What parsing reports

Parsing a source text stops by itself: neither the scanner's fuel nor the
parser's is ever what stops it. It fails exactly when the scanner or the parser
records an error, and then reports all of them: the scanner's as lexical
errors, the parser's with other kinds, sorted by position, the scanner's ahead
of the parser's at the same position.

The order comes from the stable sort of the scanner's errors followed by the
parser's: the errors at one position keep their relative order, so no
parser error comes before a lexical one there.

* `mergeSort_before_sorted`, `mergeSort_lexical_first`: the sorted reports;
* `sourceFile_succeeds`: the parser of a file never fails, its errors are
  recorded in the cursor;
* `parse_stops_and_reports`: the whole.
-/

namespace ClassCompiler.Syntax

open Cursor

/-! ### Sorting reports by position -/

namespace ParseError

/-- Two reports at the same line and column. -/
def samePlace (a b : ParseError) : Bool :=
  a.span.line == b.span.line && a.span.col == b.span.col

theorem before_trans (a b c : ParseError) (hab : before a b = true) (hbc : before b c = true) :
    before a c = true := by
  simp only [before, Bool.or_eq_true, Bool.and_eq_true, beq_iff_eq, decide_eq_true_eq] at *
  omega

theorem before_total (a b : ParseError) : (before a b || before b a) = true := by
  simp only [before, Bool.or_eq_true, Bool.and_eq_true, beq_iff_eq, decide_eq_true_eq]
  omega

/-- Reports at one place are each before the other. -/
theorem before_of_samePlace {a b c : ParseError} (hb : samePlace a b = true)
    (hc : samePlace a c = true) : before b c = true := by
  simp only [samePlace, before, Bool.and_eq_true, beq_iff_eq, Bool.or_eq_true,
    decide_eq_true_eq] at *
  omega

end ParseError

section Sorting

/-- Reports sorted by position are in order of line, then of column. -/
theorem mergeSort_before_sorted (es : List ParseError) :
    (es.mergeSort ParseError.before).Pairwise fun a b =>
      a.span.line < b.span.line ∨ a.span.line = b.span.line ∧ a.span.col ≤ b.span.col := by
  refine (List.pairwise_mergeSort ParseError.before_trans ParseError.before_total es).imp fun h => ?_
  simpa only [ParseError.before, Bool.or_eq_true, Bool.and_eq_true, beq_iff_eq, decide_eq_true_eq] using h

/-- The stable sort keeps the reports at one place in their order. -/
theorem mergeSort_filter_samePlace (es : List ParseError) (a : ParseError) :
    (es.mergeSort ParseError.before).filter (ParseError.samePlace a) = es.filter (ParseError.samePlace a) := by
  -- the reports at `a`'s place are sorted already, so the sort keeps them in order
  have hsorted : (es.filter (ParseError.samePlace a)).Pairwise fun x y => ParseError.before x y = true :=
    List.pairwise_filter.2 (List.pairwise_of_forall fun _ _ => ParseError.before_of_samePlace)
  have hsub := (List.sublist_mergeSort ParseError.before_trans ParseError.before_total hsorted List.filter_sublist).filter
    (ParseError.samePlace a)
  rw [List.filter_filter, List.filter_congr (fun x _ => Bool.and_self (ParseError.samePlace a x))] at hsub
  have hlen := ((List.mergeSort_perm es ParseError.before).filter (ParseError.samePlace a)).length_eq
  exact (hsub.eq_of_length hlen.symm).symm

/-- Sorting the scanner's errors followed by the parser's, no parser error
    comes before a lexical one at the same place. -/
theorem mergeSort_lexical_first {lex rest : List ParseError} (hl : ∀ e ∈ lex, e.kind = .lexical)
    (hr : ∀ e ∈ rest, e.kind ≠ .lexical) :
    ((lex ++ rest).mergeSort ParseError.before).Pairwise fun a b =>
      a.kind ≠ .lexical → b.kind = .lexical → ¬(a.span.line = b.span.line ∧ a.span.col = b.span.col) := by
  refine List.pairwise_iff_forall_sublist.2 fun {a b} hab ha hb hplace => ?_
  -- `a` and `b` stand among the reports at `a`'s place, which keep their order
  have hab' : List.Sublist [a, b]
      (lex.filter (ParseError.samePlace a) ++ rest.filter (ParseError.samePlace a)) := by
    rw [← List.filter_append, ← mergeSort_filter_samePlace]
    have := hab.filter (ParseError.samePlace a)
    rwa [List.filter_cons_of_pos (by simp [ParseError.samePlace]),
      List.filter_cons_of_pos (by simp [ParseError.samePlace, hplace]), List.filter_nil] at this
  obtain ⟨l₁, l₂, heq, h₁, h₂⟩ := List.sublist_append_iff.1 hab'
  -- `a` is not lexical, so it is not among the scanner's errors: both come from the parser
  have hl₁ : l₁ = [] := by
    cases l₁ with
    | nil => rfl
    | cons x l₁ =>
      simp only [List.cons_append, List.cons.injEq] at heq
      rw [← heq.1] at h₁
      exact absurd (hl a (List.mem_filter.1 (h₁.subset List.mem_cons_self)).1) ha
  rw [hl₁, List.nil_append] at heq
  rw [← heq] at h₂
  exact hr b (List.mem_filter.1 (h₂.subset (by simp))).1 hb

end Sorting

/-! ### The parser of a file never fails -/

namespace Parse

variable {α β : Type}

/-- A step that never fails. -/
def Succeeds (p : Parse α) : Prop := ∀ c : Cursor, ∃ a, (p.exec c).1 = .ok a

namespace Succeeds

variable {p : Parse α} {f : α → Parse β}

protected theorem pure (a : α) : Succeeds (pure a : Parse α) := fun _ => ⟨a, rfl⟩

protected theorem bind (hp : Succeeds p) (hf : ∀ a, Succeeds (f a)) : Succeeds (p >>= f) := by
  intro c
  obtain ⟨a, ha⟩ := hp c
  rw [exec_bind, ha]
  exact hf a _

protected theorem ite {b : Prop} [Decidable b] {q : Parse α} (hp : Succeeds p) (hq : Succeeds q) :
    Succeeds (if b then p else q) := by
  split
  · exact hp
  · exact hq

theorem peek : Succeeds peek := fun _ => ⟨_, rfl⟩

theorem get : Succeeds (get : Parse Cursor) := fun _ => ⟨_, rfl⟩

theorem skip : Succeeds skip := fun c => ⟨(), by rw [exec_skip]⟩

theorem atEnd : Succeeds atEnd := fun _ => ⟨_, rfl⟩

theorem record (e : ParseError) : Succeeds (record e) := fun _ => ⟨(), rfl⟩

/-- A failure taken as a value. -/
theorem attempt (p : Parse α) : Succeeds (attempt p) := fun c => ⟨_, by rw [exec_attempt]⟩

end Succeeds

theorem synchronizeItem_succeeds : ∀ n, Succeeds (synchronizeItem n)
  | 0 => Succeeds.pure ()
  | n + 1 => by
    rw [synchronizeItem]
    refine Succeeds.bind Succeeds.peek fun t => ?_
    split
    all_goals first
      | exact Succeeds.pure ()
      | exact Succeeds.bind Succeeds.skip fun _ => synchronizeItem_succeeds n

theorem items_succeeds : ∀ n acc, Succeeds (items n acc)
  | 0, acc => Succeeds.pure acc
  | n + 1, acc => by
    rw [items]
    refine Succeeds.bind Succeeds.atEnd fun _ => ?_
    split
    · exact Succeeds.pure _
    · refine Succeeds.bind Succeeds.peek fun _ => Succeeds.bind (Succeeds.attempt _) fun r => ?_
      -- a failed declaration is recorded, and the loop goes on
      split
      · exact items_succeeds n _
      · exact Succeeds.bind (Succeeds.record _) fun _ => Succeeds.bind Succeeds.peek fun _ =>
          Succeeds.ite
            (Succeeds.bind Succeeds.skip fun _ =>
              Succeeds.bind (synchronizeItem_succeeds n) fun _ => items_succeeds n _)
            (Succeeds.bind (synchronizeItem_succeeds n) fun _ => items_succeeds n _)

/-- The parser of a file never fails: its errors are all recorded. -/
theorem sourceFile_succeeds (n : Nat) : Succeeds (sourceFile n) :=
  Succeeds.bind Succeeds.peek fun _ => Succeeds.bind (items_succeeds n _) fun _ =>
    Succeeds.bind Succeeds.get fun _ => Succeeds.pure _

end Parse

/-! ### Parsing the tokens of a text -/

namespace Cursor

theorem ofTokens_ok {toks : Array Token} (h : ∃ t, toks.back? = some t ∧ t.kind = .eof) :
    (Cursor.ofTokens toks).Ok := by
  obtain ⟨t, ht, hk⟩ := h
  constructor
  · simp [Cursor.ofTokens, ht, hk]
  · intro t' ht'
    simp only [Cursor.ofTokens, Array.mem_filter, Bool.and_eq_true, bne_iff_ne, ne_eq] at ht'
    exact ht'.2.2

theorem ofTokens_rem_le (toks : Array Token) : (Cursor.ofTokens toks).rem ≤ toks.size := by
  simp only [Cursor.rem, Cursor.ofTokens, Nat.sub_zero]
  exact Array.size_filter_le

end Cursor

/-- The parse of a text is the parse of its tokens. -/
theorem parse_eq_parseTokens (src : String) :
    parse src = parseTokens (8 * ((tokenize src).1.size + 4)) (tokenize src).1 (tokenize src).2 := by
  unfold parse
  cases tokenize src
  rfl

/-- With at least eight units of fuel per token and one more, the parse of the
    tokens is the same. -/
theorem parseTokens_fuel {toks : Array Token} (lexErrors : Array LexError)
    (hok : (Cursor.ofTokens toks).Ok) {fuel : Nat} (hfuel : 8 * toks.size + 1 ≤ fuel) (k : Nat) :
    parseTokens (fuel + k) toks lexErrors = parseTokens fuel toks lexErrors := by
  have hrem := Cursor.ofTokens_rem_le toks
  have h := Parse.sourceFile_stable.add hok (by omega : 8 * (Cursor.ofTokens toks).rem + 1 ≤ fuel) k
  unfold parseTokens
  rw [show (Parse.sourceFile (fuel + k)).run.run (Cursor.ofTokens toks) =
    (Parse.sourceFile fuel).run.run (Cursor.ofTokens toks) from h]

/-- When the parser ends at `c`, the parse reports the scanner's errors and
    then those recorded in `c`, sorted, or the file when there are none. -/
theorem parseTokens_of_run {fuel : Nat} {toks : Array Token} (lexErrors : Array LexError)
    {file : SourceFile} {c : Cursor}
    (h : (Parse.sourceFile fuel).exec (Cursor.ofTokens toks) = (.ok file, c)) :
    parseTokens fuel toks lexErrors =
      match lexErrors.toList.map ParseError.ofLex ++ c.errors.toList with
      | [] => .ok file
      | es => .error (es.mergeSort ParseError.before) := by
  unfold parseTokens
  rw [show (Parse.sourceFile fuel).run.run (Cursor.ofTokens toks) = (.ok file, c) from h]
  dsimp only
  cases lexErrors.toList.map ParseError.ofLex ++ c.errors.toList <;> rfl

/-- The errors the parser records are never lexical. -/
theorem sourceFile_errors_not_lexical (fuel : Nat) (toks : Array Token) :
    ∀ e ∈ ((Parse.sourceFile fuel).exec (Cursor.ofTokens toks)).2.errors.toList,
      e.kind ≠ .lexical := by
  obtain ⟨new, hnew, hkind⟩ := ((Parse.sourceFile_moves fuel).follows (Cursor.ofTokens toks)).errors
  rw [hnew]
  exact hkind

/-- Parsing a source text stops by itself, and when it fails it reports the
    scanner's errors as lexical errors and the parser's with other kinds, in
    order of position, the scanner's first at each position. It fails exactly
    when the scanner or the parser records an error. -/
theorem parse_stops_and_reports (src : String) :
    (∀ j, scanAll (src.toList.length + 1 + j) ⟨src.toList, Pos.start, #[]⟩ #[] = tokenize src) ∧
    (∀ k, parseTokens (8 * ((tokenize src).1.size + 4) + k) (tokenize src).1 (tokenize src).2 =
      parse src) ∧
    ((∃ file, parse src = .ok file) ↔ (tokenize src).2 = #[] ∧
      ((Parse.sourceFile (8 * ((tokenize src).1.size + 4))).exec
        (Cursor.ofTokens (tokenize src).1)).2.errors = #[]) ∧
    ∀ es, parse src = .error es →
      (es.filter (·.kind == .lexical)).Perm ((tokenize src).2.toList.map ParseError.ofLex) ∧
      es.Pairwise (fun a b =>
        a.span.line < b.span.line ∨ a.span.line = b.span.line ∧ a.span.col ≤ b.span.col) ∧
      es.Pairwise (fun a b => a.kind ≠ .lexical → b.kind = .lexical →
        ¬(a.span.line = b.span.line ∧ a.span.col = b.span.col)) := by
  have hok := Cursor.ofTokens_ok (tokenize_back src)
  -- the parser of the file succeeds, with its errors recorded in the cursor
  obtain ⟨file, hfile⟩ := Parse.sourceFile_succeeds (8 * ((tokenize src).1.size + 4))
    (Cursor.ofTokens (tokenize src).1)
  have hparser := sourceFile_errors_not_lexical (8 * ((tokenize src).1.size + 4)) (tokenize src).1
  have hrun : (Parse.sourceFile (8 * ((tokenize src).1.size + 4))).exec
      (Cursor.ofTokens (tokenize src).1) = (.ok file, ((Parse.sourceFile
        (8 * ((tokenize src).1.size + 4))).exec (Cursor.ofTokens (tokenize src).1)).2) := by
    rw [← hfile]
  generalize ((Parse.sourceFile (8 * ((tokenize src).1.size + 4))).exec
    (Cursor.ofTokens (tokenize src).1)).2 = c at hrun hparser
  have hlex : ∀ e ∈ (tokenize src).2.toList.map ParseError.ofLex, e.kind = .lexical := by
    simp [ParseError.ofLex]
  have hparse := (parse_eq_parseTokens src).trans (parseTokens_of_run (tokenize src).2 hrun)
  refine ⟨tokenize_fuel src, fun k => ?_, ?_, fun es hes => ?_⟩
  · rw [parse_eq_parseTokens]
    exact parseTokens_fuel _ hok (by omega) k
  · rw [hparse]
    constructor
    · rintro ⟨f, hf⟩
      split at hf
      · rename_i hnil
        simp only [List.append_eq_nil_iff, List.map_eq_nil_iff, Array.toList_eq_nil_iff] at hnil
        exact hnil
      · cases hf
    · rintro ⟨hl, hp⟩
      simp [hl, hp]
  · rw [hparse] at hes
    split at hes
    · cases hes
    cases hes
    refine ⟨?_, mergeSort_before_sorted _, mergeSort_lexical_first hlex hparser⟩
    -- the sort permutes the reports; the lexical ones are the scanner's
    refine ((List.mergeSort_perm _ _).filter _).trans ?_
    rw [List.filter_append, List.filter_eq_self.2 fun e he => by simp [hlex e he],
      List.filter_eq_nil_iff.2 fun e he => by simp [hparser e he], List.append_nil]

end ClassCompiler.Syntax
