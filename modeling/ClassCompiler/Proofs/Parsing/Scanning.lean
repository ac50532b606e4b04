import ClassCompiler.Source.Lexer

/-!
# The scanner reads the text once, from the front

Every step of the scanner takes some characters off the front of what is left
and moves its position over them (`Scan.Reads`): skipping blanks or a comment,
reading a string, a number, a name or an operator. A step from a nonempty rest
reads at least one character, and a token it finds is an error, or the token
of exactly the characters read, of a class other than the end.

So the scanner stops by itself. It is given one step per character and one
more, which is enough: every step but the one that finds the end consumes at
least one character, so with more fuel it finds the same tokens and errors.
The tokens it finds end with the end token.

* `scanOne_reads`: what a step reads, and the token it finds;
* `tokenize_fuel`: fuel beyond one step per character changes nothing;
* `tokenize_back`: the last token is the end.
-/

namespace ClassCompiler

namespace Pos

@[simp] theorem stepAll_nil (p : Pos) : p.stepAll [] = p := rfl

@[simp] theorem stepAll_cons (p : Pos) (c : Char) (w : List Char) :
    p.stepAll (c :: w) = (p.step c).stepAll w := rfl

theorem stepAll_append (p : Pos) (u w : List Char) : p.stepAll (u ++ w) = (p.stepAll u).stepAll w :=
  List.foldl_append

@[simp] theorem step_offset (p : Pos) (c : Char) : (p.step c).offset = p.offset + c.utf8Size := by
  unfold step
  split
  · subst_vars; rfl
  · rfl

@[simp] theorem step_chars (p : Pos) (c : Char) : (p.step c).chars = p.chars + 1 := by
  unfold step
  split <;> rfl

@[simp] theorem step_line (p : Pos) (c : Char) :
    (p.step c).line = p.line + if c = '\n' then 1 else 0 := by
  unfold step
  split <;> simp_all

@[simp] theorem stepAll_chars (p : Pos) (w : List Char) : (p.stepAll w).chars = p.chars + w.length := by
  induction w generalizing p with
  | nil => rfl
  | cons c w ih => simp [ih]; omega

theorem stepAll_line (p : Pos) (w : List Char) : (p.stepAll w).line = p.line + w.count '\n' := by
  induction w generalizing p with
  | nil => rfl
  | cons c w ih =>
    simp only [stepAll_cons, ih, step_line, List.count_cons]
    split <;> simp_all <;> omega

end Pos

namespace Scan

/-- `s'` is `s` after reading the characters `w`: they are taken off the front
    of what is left, and the position moves over them. -/
def Reads (s s' : Scan) (w : List Char) : Prop :=
  s.rest = w ++ s'.rest ∧ s'.pos = s.pos.stepAll w

namespace Reads

variable {s s₁ s₂ : Scan} {u w : List Char}

theorem nil (s : Scan) : Reads s s [] := ⟨rfl, rfl⟩

theorem trans (h₁ : Reads s s₁ u) (h₂ : Reads s₁ s₂ w) : Reads s s₂ (u ++ w) :=
  ⟨by rw [h₁.1, h₂.1, List.append_assoc], by rw [h₂.2, h₁.2, Pos.stepAll_append]⟩

theorem suffix (h : Reads s s₁ w) : s₁.rest <:+ s.rest := ⟨w, h.1.symm⟩

/-- Reading at least one character from `c :: r` leaves a suffix of `r`. -/
theorem suffix_tail {c : Char} {r : List Char} (h : Reads s s₁ w) (hw : w ≠ []) (hs : s.rest = c :: r) :
    s₁.rest <:+ r := by
  obtain ⟨d, w', rfl⟩ := List.exists_cons_of_ne_nil hw
  have hrest := h.1
  rw [hs, List.cons_append, List.cons.injEq] at hrest
  exact ⟨w', hrest.2.symm⟩

end Reads

theorem reads_advance {s : Scan} {c : Char} {r : List Char} (h : s.rest = c :: r) :
    Reads s s.advance [c] := by
  simp [Reads, advance, h]

theorem reads_eatWhile (s : Scan) (p : Char → Bool) :
    Reads s (s.eatWhile p).1 (s.rest.takeWhile p) := by
  refine ⟨?_, rfl⟩
  simp only [eatWhile]
  conv => lhs; rw [← List.take_append_drop (s.rest.takeWhile p).length s.rest]
  rw [← List.prefix_iff_eq_take.1 (List.takeWhile_prefix p)]

/-- Advancing reads the next character, or nothing at the end. -/
theorem reads_advance_any (s : Scan) : ∃ w, Reads s s.advance w := by
  cases h : s.rest with
  | nil => exact ⟨[], by simp [Reads, advance, h]⟩
  | cons c r => exact ⟨[c], reads_advance h⟩

end Scan

/-- A token found between the scanner states `s` and `s'`: an error, or the
    token of the characters read, of a class other than the end. -/
def Scan.Found (s s' : Scan) (t : Token) : Prop :=
  t.kind = .error ∨ (t.kind ≠ .eof ∧ t = tokenFrom t.kind s.rest s.pos s')

/-- Recording the error of an error token reads nothing more. -/
theorem reads_errorToken {s s' : Scan} {w : List Char} (h : Scan.Reads s s' w) (e : LexError) :
    Scan.Reads s (errorToken s' e).2 w := h

/-- One byte order mark, then blanks. -/
theorem reads_skipBlanks (s : Scan) : ∃ w, Scan.Reads s (skipBlanks s) w := by
  unfold skipBlanks
  dsimp only
  split
  · rename_i hbom
    obtain ⟨r, hr⟩ : ∃ r, s.rest = '﻿' :: r := by
      simp only [Scan.peek, beq_iff_eq] at hbom
      cases h : s.rest with
      | nil => simp [h] at hbom
      | cons c r => simp_all
    exact ⟨_, (Scan.reads_advance hr).trans (Scan.reads_eatWhile _ _)⟩
  · exact ⟨_, Scan.reads_eatWhile _ _⟩

/-- A string body is read up to where it stops; what it finds is an error, or
    the string token of everything read from its start. -/
theorem scanStringBody_reads (start : Pos) (src r : List Char) (p : Pos) (errs : Array LexError) :
    ∃ w, Scan.Reads ⟨r, p, errs⟩ (scanStringBody start src r p errs).2 w ∧
      ((scanStringBody start src r p errs).1.kind = .error ∨
        (scanStringBody start src r p errs).1 = tokenFrom .stringLit src start (scanStringBody start src r p errs).2) := by
  fun_induction scanStringBody start src r p errs
  case case1 | case2 => exact ⟨[], ⟨rfl, rfl⟩, .inl rfl⟩
  case case3 => exact ⟨['"'], ⟨rfl, rfl⟩, .inr rfl⟩
  case case4 => exact ⟨['\\'], ⟨rfl, rfl⟩, .inl rfl⟩
  -- an escape: the backslash and the escaped character, or the backslash
  -- alone when a line feed follows it
  case case5 c r p errs p' _ ih | case7 c r p errs p' _ _ ih =>
    obtain ⟨w, hw, ht⟩ := ih
    exact ⟨'\\' :: c :: w, ⟨congrArg (List.cons '\\') (congrArg (List.cons c) hw.1), hw.2⟩, ht⟩
  case case6 c r p errs p' _ _ ih =>
    obtain ⟨w, hw, ht⟩ := ih
    exact ⟨'\\' :: w, ⟨congrArg (List.cons '\\') hw.1, hw.2⟩, ht⟩
  case case8 c r p errs _ _ _ _ ih =>
    obtain ⟨w, hw, ht⟩ := ih
    exact ⟨c :: w, ⟨congrArg (List.cons c) hw.1, hw.2⟩, ht⟩

/-- A block comment is read up to its end. -/
theorem skipBlockComment_reads {r r' : List Char} {p p' : Pos} (h : skipBlockComment r p = some (r', p')) :
    ∃ w, r = w ++ r' ∧ p' = p.stepAll w := by
  fun_induction skipBlockComment r p
  case case1 => cases h
  case case2 r p =>
    cases h
    exact ⟨['*', '/'], rfl, rfl⟩
  case case3 c r p _ ih =>
    obtain ⟨w, hw, hp⟩ := ih h
    exact ⟨c :: w, by simp [hw], hp⟩

/-- The end of a number: a suffix letter, then an invalid suffix as an error,
    or the literal. -/
theorem scanNumber_finish_reads (src : List Char) (start : Pos) (s : Scan) (isDouble : Bool) :
    ∃ w, Scan.Reads s (scanNumber.finish start src s isDouble).2 w ∧
      ((scanNumber.finish start src s isDouble).1.kind = .error ∨
        ((scanNumber.finish start src s isDouble).1.kind ≠ .eof ∧
          (scanNumber.finish start src s isDouble).1 =
            tokenFrom (scanNumber.finish start src s isDouble).1.kind src start
              (scanNumber.finish start src s isDouble).2)) := by
  obtain ⟨wa, ha⟩ := Scan.reads_advance_any s
  unfold scanNumber.finish
  dsimp only
  -- `f`, then `L`, both read; a double or an int, with nothing read; in each
  -- case an invalid suffix is eaten up as an error
  split
  · split
    · exact ⟨_, reads_errorToken (ha.trans (Scan.reads_eatWhile _ _)) _, .inl rfl⟩
    · exact ⟨wa, ha, .inr ⟨by simp [tokenFrom], rfl⟩⟩
  split
  · split
    · exact ⟨_, reads_errorToken (ha.trans (Scan.reads_eatWhile _ _)) _, .inl rfl⟩
    · exact ⟨wa, ha, .inr ⟨by simp [tokenFrom], rfl⟩⟩
  split
  · split
    · exact ⟨_, reads_errorToken (Scan.reads_eatWhile _ _) _, .inl rfl⟩
    · exact ⟨[], .nil s, .inr ⟨by simp [tokenFrom], rfl⟩⟩
  · split
    · exact ⟨_, reads_errorToken (Scan.reads_eatWhile _ _) _, .inl rfl⟩
    · exact ⟨[], .nil s, .inr ⟨by simp [tokenFrom], rfl⟩⟩

/-- A number, which starts with the digit `c`, is read past it; what it finds
    is an error, or the literal of everything read. -/
theorem scanNumber_reads {s : Scan} {c : Char} {r : List Char} (h : s.rest = c :: r)
    (hc : c.isDigit = true) :
    ∃ w, w ≠ [] ∧ Scan.Reads s (scanNumber s).2 w ∧ s.Found (scanNumber s).2 (scanNumber s).1 := by
  unfold scanNumber
  -- the digits, which include `c`
  split
  rename_i s₁ _ hs₁
  have h₁ : Scan.Reads s s₁ (s.rest.takeWhile Char.isDigit) := by
    have := Scan.reads_eatWhile s Char.isDigit
    rwa [hs₁] at this
  have hne : s.rest.takeWhile Char.isDigit ≠ [] := by simp [h, hc]
  -- the fraction
  split
  rename_i s₂ isDouble hs₂
  obtain ⟨w₂, h₂⟩ : ∃ w, Scan.Reads s₁ s₂ w := by
    split at hs₂ <;> cases hs₂
    · obtain ⟨wa, ha⟩ := Scan.reads_advance_any s₁
      exact ⟨_, ha.trans (Scan.reads_eatWhile _ _)⟩
    · exact ⟨[], .nil _⟩
  -- the exponent, then the suffix
  dsimp only
  split
  · rename_i s₃ hs₃
    obtain ⟨w₃, h₃⟩ : ∃ w, Scan.Reads s₂ s₃ w := by
      split at hs₃
      · cases hs₃
        obtain ⟨wa, ha⟩ := Scan.reads_advance_any s₂
        split
        · obtain ⟨wb, hb⟩ := Scan.reads_advance_any s₂.advance
          exact ⟨_, ha.trans hb⟩
        · exact ⟨wa, ha⟩
      · cases hs₃
    split
    · exact ⟨_, by simp [hne], reads_errorToken ((h₁.trans h₂).trans h₃) _, .inl rfl⟩
    · obtain ⟨w, hw, ht⟩ := scanNumber_finish_reads s.rest s.pos (s₃.eatWhile Char.isDigit).1 true
      exact ⟨_, by simp [hne], (((h₁.trans h₂).trans h₃).trans (Scan.reads_eatWhile _ _)).trans hw, ht⟩
  · obtain ⟨w, hw, ht⟩ := scanNumber_finish_reads s.rest s.pos s₂ isDouble
    exact ⟨_, by simp [hne], ((h₁.trans h₂).trans hw), ht⟩

/-- The scanner's state after a step. -/
def Step.scan : Step → Scan
  | .token _ s => s
  | .skip s => s

theorem isIdentContinue_of_isIdentStart {c : Char} (h : isIdentStart c = true) :
    isIdentContinue c = true := by
  simp only [isIdentStart, isIdentContinue, Char.isAlphanum, Bool.or_eq_true] at h ⊢
  rcases h with h | h
  · exact Or.inl (Or.inl h)
  · exact Or.inr h

theorem TokenKind.keyword?_ne_eof (s : String) : (TokenKind.keyword? s).getD .ident ≠ .eof := by
  unfold TokenKind.keyword?
  split <;> simp

theorem operatorKind?_ne_eof {c : Char} {next : Option Char} {k : TokenKind} {two : Bool}
    (h : operatorKind? c next = some (k, two)) : k ≠ .eof := by
  unfold operatorKind? at h
  split at h <;> cases h <;> simp

/-- A step from a nonempty rest reads at least one character: a comment is
    skipped whole, and a token found is an error, or the token of the
    characters read, which is not the end. -/
theorem scanOne_reads {s : Scan} {c : Char} {r : List Char} (h : s.rest = c :: r) :
    ∃ w, w ≠ [] ∧ Scan.Reads s (scanOne s).scan w ∧ ∀ t s', scanOne s = .token t s' → s.Found s' t := by
  obtain ⟨rest, pos, errs⟩ := s
  dsimp only at h
  subst h
  unfold scanOne
  dsimp only
  split
  · -- a slash: a comment or the operator
    rename_i hslash
    rw [beq_iff_eq] at hslash
    subst hslash
    split
    · exact ⟨_, by simp, Scan.reads_eatWhile _ _, fun _ _ h => by cases h⟩
    · rename_i r'
      split
      · rename_i r'' p hskip
        obtain ⟨w, hw, hp⟩ := skipBlockComment_reads hskip
        exact ⟨'/' :: '*' :: w, by simp, ⟨by simp [Step.scan, hw], hp⟩, fun _ _ h => by cases h⟩
      · refine ⟨'/' :: '*' :: r', by simp, ⟨by simp [Step.scan, errorToken, Scan.record], rfl⟩, ?_⟩
        intro t s' hstep
        cases hstep
        exact .inl rfl
    · refine ⟨['/'], by simp, Scan.reads_advance rfl, ?_⟩
      intro t s' hstep
      cases hstep
      exact .inr ⟨by simp [tokenFrom], rfl⟩
  split
  · -- a string
    rename_i hquote
    rw [beq_iff_eq] at hquote
    subst hquote
    obtain ⟨w, hw, ht⟩ := scanStringBody_reads pos ('"' :: r) r (pos.step '"') errs
    refine ⟨'"' :: w, by simp, ⟨congrArg (List.cons '"') hw.1, hw.2⟩, ?_⟩
    intro t s' hstep
    cases hstep
    rcases ht with ht | ht
    · exact .inl ht
    · exact .inr ⟨by rw [ht]; simp [tokenFrom], by rw [ht]; rfl⟩
  split
  · -- a number
    rename_i hdigit
    obtain ⟨w, hne, hw, ht⟩ := scanNumber_reads (s := ⟨c :: r, pos, errs⟩) rfl hdigit
    refine ⟨w, hne, hw, ?_⟩
    intro t s' hstep
    cases hstep
    exact ht
  split
  · -- a name or a keyword
    rename_i hident
    refine ⟨_, ?_, Scan.reads_eatWhile _ _, ?_⟩
    · simp [isIdentContinue_of_isIdentStart hident]
    · intro t s' hstep
      cases hstep
      exact .inr ⟨TokenKind.keyword?_ne_eof _, rfl⟩
  -- an operator of one or two characters, or a character that starts nothing
  split
  · rename_i k two hk
    have hkind := operatorKind?_ne_eof hk
    split
    · obtain ⟨wb, hb⟩ := Scan.reads_advance_any (Scan.advance ⟨c :: r, pos, errs⟩)
      refine ⟨c :: wb, by simp, (Scan.reads_advance rfl).trans hb, ?_⟩
      intro t s' hstep
      cases hstep
      exact .inr ⟨hkind, rfl⟩
    · refine ⟨[c], by simp, Scan.reads_advance rfl, ?_⟩
      intro t s' hstep
      cases hstep
      exact .inr ⟨hkind, rfl⟩
  · refine ⟨[c], by simp, Scan.reads_advance rfl, ?_⟩
    intro t s' hstep
    cases hstep
    exact .inl rfl

/-- At the end of the text a step finds the end token. -/
theorem scanOne_nil {s : Scan} (h : s.rest = []) :
    scanOne s = .token ⟨.eof, "", ⟨s.pos.line, s.pos.col, 0⟩⟩ s := by
  unfold scanOne
  rw [h]

/-- A step from a nonempty rest reads its first character: it stops within
    the characters after it. -/
theorem scanOne_suffix {s : Scan} {c : Char} {r : List Char} (h : s.rest = c :: r) :
    (scanOne s).scan.rest <:+ r := by
  obtain ⟨w, hne, hw, -⟩ := scanOne_reads h
  exact hw.suffix_tail hne h

theorem skipBlanks_suffix (s : Scan) : (skipBlanks s).rest <:+ s.rest := by
  obtain ⟨w, hw⟩ := reads_skipBlanks s
  exact hw.suffix

/-! ### The scanning loop -/

/-- Fuel beyond the characters left changes nothing: every round but the last
    reads a character. -/
theorem scanAll_succ : ∀ n (s : Scan) (acc : Array Token), s.rest.length < n →
    scanAll n s acc = scanAll (n + 1) s acc
  | 0, _, _, h => absurd h (Nat.not_lt_zero _)
  | n + 1, s, acc, h => by
    rw [scanAll, scanAll]
    have hb := (skipBlanks_suffix s).length_le
    rcases hr : (skipBlanks s).rest with _ | ⟨c, r⟩
    · -- nothing left: the end token ends the loop
      rw [scanOne_nil hr]
      rfl
    · have hsuf := (scanOne_suffix hr).length_le
      rw [hr] at hb
      simp only [List.length_cons] at hb
      cases hstep : scanOne (skipBlanks s) with
      | skip s' =>
        rw [hstep] at hsuf
        exact scanAll_succ n s' acc (by simp only [Step.scan] at hsuf; omega)
      | token t s' =>
        rw [hstep] at hsuf
        dsimp only
        split
        · rfl
        · exact scanAll_succ n s' _ (by simp only [Step.scan] at hsuf; omega)

/-- The scanner is given enough fuel: with any more it finds the same tokens
    and errors. -/
theorem tokenize_fuel (src : String) :
    ∀ k, scanAll (src.toList.length + 1 + k) ⟨src.toList, Pos.start, #[]⟩ #[] = tokenize src
  | 0 => rfl
  | k + 1 => by
    rw [← Nat.add_assoc, ← scanAll_succ _ _ _ (by dsimp only; omega)]
    exact tokenize_fuel src k

theorem scanAll_back : ∀ n (s : Scan) (acc : Array Token),
    ∃ t, (scanAll n s acc).1.back? = some t ∧ t.kind = .eof
  | 0, s, acc => ⟨_, Array.back?_push, rfl⟩
  | n + 1, s, acc => by
    rw [scanAll]
    split
    · exact scanAll_back n _ acc
    · split
      · rename_i t _ _ heof
        exact ⟨t, Array.back?_push, by simpa using heof⟩
      · exact scanAll_back n _ _

/-- The tokens of a text end with the end token. -/
theorem tokenize_back (src : String) : ∃ t, (tokenize src).1.back? = some t ∧ t.kind = .eof :=
  scanAll_back _ _ _

end ClassCompiler
