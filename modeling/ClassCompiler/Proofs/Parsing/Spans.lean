import ClassCompiler.Proofs.Parsing.Scanning
import Mathlib.Data.String.Basic
import Mathlib.Data.List.Induction

/-!
# Where the tokens stand in the text

The scanner called again and again (`Scan.next`, `Scan.calls`), as the parser
calls it, and where the tokens it gives stand in the bytes of the text.
Positions count bytes: a line feed starts a new line at column 1, and any
other character moves the column by the length of its encoding.

* `Scan.next_reads`: a call skips blanks and comments, then reads the
  characters of one token; the end is found with nothing left, and found again
  by every later call;
* `scanAll_calls`: the scanning loop of `tokenize` is the scanner called until
  it finds the end, at most once per character before it;
* `calls_placed`: every token but the errors and the end is the text at some
  byte offset, at the line and column of that offset, and the offsets
  increase without the texts overlapping;
* `tokenize_spans`: all of this for the tokens of a whole text.
-/

namespace ClassCompiler

namespace Pos

theorem stepAll_offset (p : Pos) (w : List Char) : (p.stepAll w).offset = p.offset + String.utf8Len w := by
  induction w generalizing p with
  | nil => rfl
  | cons c w ih => simp [ih]; omega

/-- From the start, the column counts the bytes since the last line feed. -/
theorem start_stepAll_col (w : List Char) :
    (Pos.start.stepAll w).col = String.utf8Len (w.reverse.takeWhile (· != '\n')) + 1 := by
  induction w using List.reverseRecOn with
  | nil => rfl
  | append_singleton w c ih =>
    rw [stepAll_append, List.reverse_append]
    simp only [stepAll_cons, stepAll_nil, List.reverse_singleton, List.singleton_append]
    unfold step
    split
    · subst_vars; simp
    · rename_i hc
      simp [hc, ih, String.utf8Len_cons]
      omega


end Pos

/-! ### Bytes -/

/-- The UTF-8 encoding of some characters. -/
def utf8Bytes (cs : List Char) : List UInt8 := cs.flatMap String.utf8EncodeChar

@[simp] theorem utf8Bytes_nil : utf8Bytes [] = [] := rfl

@[simp] theorem utf8Bytes_cons (c : Char) (cs : List Char) :
    utf8Bytes (c :: cs) = String.utf8EncodeChar c ++ utf8Bytes cs := List.flatMap_cons

@[simp] theorem utf8Bytes_append (u w : List Char) : utf8Bytes (u ++ w) = utf8Bytes u ++ utf8Bytes w :=
  List.flatMap_append

@[simp] theorem length_utf8Bytes (cs : List Char) : (utf8Bytes cs).length = String.utf8Len cs := by
  induction cs with
  | nil => rfl
  | cons c cs ih => simp [ih, String.length_utf8EncodeChar, Nat.add_comm]

/-- The bytes of a string are the encodings of its characters. -/
theorem toUTF8_eq_utf8Bytes (s : String) : s.toUTF8.data.toList = utf8Bytes s.toList := by
  rw [String.toUTF8_eq_toByteArray]
  conv => lhs; rw [← String.ofList_toList (s := s)]
  rw [String.toByteArray_ofList]
  simp [List.utf8Encode, utf8Bytes]

theorem utf8EncodeChar_newline : String.utf8EncodeChar '\n' = [10] := rfl

/-- Only a line feed is encoded with the byte 10: every other character is a
    byte below 128 other than 10, or bytes of 128 and more. -/
theorem newline_not_mem_utf8EncodeChar {c : Char} (hc : c ≠ '\n') : (10 : UInt8) ∉ String.utf8EncodeChar c := by
  have hv : c.val.toNat ≠ 10 := by
    intro h
    apply hc
    apply Char.ext
    apply UInt32.toNat_inj.1
    simpa using h
  have hval : c.toNat = c.val.toNat := rfl
  intro hmem
  have hmap := List.mem_map_of_mem (f := UInt8.toNat) hmem
  simp only [String.utf8EncodeChar] at hmap
  split_ifs at hmap <;> simp [UInt8.toNat_ofNat] at hmap <;> omega

/-- The line of a byte offset: one more than the line feeds before it. -/
def lineAt (b : List UInt8) (o : Nat) : Nat := (b.take o).count 10 + 1

/-- The column of a byte offset: one more than the bytes since the last line
    feed before it, or since the start. -/
def colAt (b : List UInt8) (o : Nat) : Nat := ((b.take o).reverse.takeWhile (· != 10)).length + 1

theorem count_newline_utf8Bytes (cs : List Char) : (utf8Bytes cs).count 10 = cs.count '\n' := by
  induction cs with
  | nil => rfl
  | cons c cs ih =>
    rw [utf8Bytes_cons, List.count_append, ih, List.count_cons]
    by_cases hc : c = '\n'
    · subst hc
      simp [utf8EncodeChar_newline, Nat.add_comm]
    · rw [List.count_eq_zero_of_not_mem (newline_not_mem_utf8EncodeChar hc)]
      simp [hc]

/-- The bytes after the last line feed encode the characters after it. -/
theorem length_takeWhile_utf8Bytes (cs : List Char) :
    ((utf8Bytes cs).reverse.takeWhile (· != 10)).length =
      String.utf8Len (cs.reverse.takeWhile (· != '\n')) := by
  induction cs using List.reverseRecOn with
  | nil => rfl
  | append_singleton cs c ih =>
    rw [utf8Bytes_append, List.reverse_append, List.reverse_append]
    by_cases hc : c = '\n'
    · subst hc
      rfl
    · have hall : ∀ b ∈ (utf8Bytes [c]).reverse, (b != 10) = true := by
        intro b hb
        have : b ≠ 10 := fun h => newline_not_mem_utf8EncodeChar hc (by simp_all)
        simpa using this
      rw [List.takeWhile_append_of_pos hall]
      simp [hc, ih, String.length_utf8EncodeChar, Nat.add_comm]


/-! ### The scanner called token after token -/

/-- The characters read make the token of a class read from them. -/
theorem tokenFrom_of_reads {s s' : Scan} {w : List Char} (h : Scan.Reads s s' w) (k : TokenKind) :
    tokenFrom k s.rest s.pos s' = ⟨k, String.ofList w, ⟨s.pos.line, s.pos.col, String.utf8Len w⟩⟩ := by
  unfold tokenFrom Pos.spanTo
  rw [h.2, Pos.stepAll_chars, Pos.stepAll_offset, h.1]
  simp

/-- Blanks at the end of the text leave nothing to skip. -/
theorem skipBlanks_of_nil {s : Scan} (h : s.rest = []) : skipBlanks s = s := by
  obtain ⟨rest, pos, errs⟩ := s
  dsimp only at h
  subst h
  rfl

/-- A step that skips a comment reads at least one character. -/
theorem scanOne_skip_shorter {s s' : Scan} (h : scanOne s = .skip s') : s'.rest.length < s.rest.length := by
  cases hr : s.rest with
  | nil => rw [scanOne_nil hr] at h; cases h
  | cons c r =>
    obtain ⟨w, hne, hw, -⟩ := scanOne_reads hr
    rw [h] at hw
    have hlen := congrArg List.length hw.1
    rw [hr] at hlen
    have := List.length_pos_iff.2 hne
    simp only [Step.scan, List.length_append, List.length_cons] at hlen
    simp only [List.length_cons]
    omega

namespace Scan

/-- The scanner at the start of a text. -/
def init (src : String) : Scan := ⟨src.toList, Pos.start, #[]⟩

/-- What one call of the scanner returns: blanks and comments are skipped, and
    the next token is read, with the state after it. -/
def next (s : Scan) : Token × Scan :=
  match h : scanOne (skipBlanks s) with
  | .token t s' => (t, s')
  | .skip s' => next s'
termination_by s.rest.length
decreasing_by
  have := scanOne_skip_shorter h
  have := (skipBlanks_suffix s).length_le
  omega

/-- The tokens of `n` calls of the scanner. -/
def calls : Nat → Scan → List Token
  | 0, _ => []
  | n + 1, s => (next s).1 :: calls n (next s).2

end Scan

theorem tokenize_eq (src : String) : tokenize src = scanAll (src.toList.length + 1) (Scan.init src) #[] := rfl


namespace Scan

theorem next_eq (s : Scan) : s.next = match scanOne (skipBlanks s) with
    | .token t s' => (t, s')
    | .skip s' => s'.next := by
  rw [next]
  split <;> simp_all

/-- At the end of the text a call gives the end token and stays where it is. -/
theorem next_of_nil {s : Scan} (h : s.rest = []) : s.next = (⟨.eof, "", ⟨s.pos.line, s.pos.col, 0⟩⟩, s) := by
  rw [next_eq, skipBlanks_of_nil h, scanOne_nil h]

/-- A call skips blanks and comments, the characters `u`, then reads the
    characters `w`. The end is found with nothing left to read, and every
    later call finds it again; any other token reads a character; and a token
    other than an error is the text read, at the position after what was
    skipped. -/
theorem next_reads (s : Scan) :
    ∃ u w, Reads s s.next.2 (u ++ w) ∧
      (s.next.1.kind = .eof → w = [] ∧ s.next.2.rest = [] ∧ s.next.2.next = s.next) ∧
      (s.next.1.kind ≠ .eof → w ≠ []) ∧
      (s.next.1.kind ≠ .error → s.next.1.kind ≠ .eof →
        s.next.1 = ⟨s.next.1.kind, String.ofList w,
          ⟨(s.pos.stepAll u).line, (s.pos.stepAll u).col, String.utf8Len w⟩⟩) := by
  fun_induction next s
  case case1 s t s' h =>
    obtain ⟨u, hu⟩ := reads_skipBlanks s
    cases hr : (skipBlanks s).rest with
    | nil =>
      -- nothing but blanks and comments was left: the end
      rw [scanOne_nil hr] at h
      cases h
      refine ⟨u, [], by simpa using hu, fun _ => ⟨rfl, hr, next_of_nil hr⟩, fun hk => absurd rfl hk,
        fun _ hk => absurd rfl hk⟩
    | cons c r =>
      obtain ⟨w, hne, hw, hfound⟩ := scanOne_reads hr
      rw [h] at hw
      replace hw : Reads (skipBlanks s) s' w := hw
      have hreads : Reads s s' (u ++ w) := hu.trans hw
      rcases hfound t s' h with ht | ⟨hk, ht⟩
      · exact ⟨u, w, hreads, fun he => by simp [ht] at he, fun _ => hne, fun he => absurd ht he⟩
      · refine ⟨u, w, hreads, fun he => absurd he hk, fun _ => hne, fun _ _ => ?_⟩
        show t = _
        rw [ht, tokenFrom_of_reads hw, hu.2]
  case case2 s s' h ih =>
    obtain ⟨u₀, hu₀⟩ := reads_skipBlanks s
    obtain ⟨w₀, hw₀⟩ : ∃ w, Reads (skipBlanks s) s' w := by
      cases hr : (skipBlanks s).rest with
      | nil => rw [scanOne_nil hr] at h; cases h
      | cons c r =>
        obtain ⟨w, -, hw, -⟩ := scanOne_reads hr
        rw [h] at hw
        exact ⟨w, hw⟩
    obtain ⟨u, w, hr, he, hne, ht⟩ := ih
    have h₀ := hu₀.trans hw₀
    refine ⟨u₀ ++ w₀ ++ u, w, by simpa [List.append_assoc] using h₀.trans hr, he, hne, ?_⟩
    rw [Pos.stepAll_append, ← h₀.2]
    exact ht

end Scan


namespace Scan

theorem next_le (s : Scan) : s.next.2.rest.length ≤ s.rest.length := by
  obtain ⟨u, w, hr, -⟩ := next_reads s
  have := congrArg List.length hr.1
  simp only [List.length_append] at this
  omega

/-- A call that does not find the end reads a character. -/
theorem next_lt {s : Scan} (h : s.next.1.kind ≠ .eof) : s.next.2.rest.length < s.rest.length := by
  obtain ⟨u, w, hr, -, hne, -⟩ := next_reads s
  have := congrArg List.length hr.1
  have := List.length_pos_iff.2 (hne h)
  simp only [List.length_append] at *
  omega

theorem calls_succ (n : Nat) (s : Scan) : s.calls (n + 1) = s.next.1 :: s.next.2.calls n := rfl

@[simp] theorem length_calls : ∀ (n : Nat) (s : Scan), (s.calls n).length = n
  | 0, _ => rfl
  | n + 1, s => by rw [calls_succ, List.length_cons, length_calls n]

/-- Calls from a state that a call keeps give the same token each time. -/
theorem calls_of_next_eq {s : Scan} {e : Token} (h : s.next = (e, s)) :
    ∀ k, s.calls k = List.replicate k e
  | 0 => rfl
  | k + 1 => by rw [calls_succ, h, calls_of_next_eq h k]; rfl

end Scan

/-- With fuel beyond what is left, the scanning loop makes one call, then
    stops at the end or goes on from where the call left off. -/
theorem scanAll_eq_next {fuel : Nat} {s : Scan} (acc : Array Token) (h : s.rest.length < fuel) :
    scanAll fuel s acc = if s.next.1.kind = .eof then (acc.push s.next.1, s.next.2.errors)
      else scanAll fuel s.next.2 (acc.push s.next.1) := by
  obtain ⟨f, rfl⟩ : ∃ f, fuel = f + 1 := ⟨fuel - 1, by omega⟩
  fun_induction Scan.next s generalizing f
  case case1 s t s' hstep =>
    rw [scanAll, hstep]
    dsimp only
    by_cases he : t.kind = .eof
    · simp [he]
    · have hlt : s'.rest.length < s.rest.length := by
        have := Scan.next_lt (s := s) (by rw [Scan.next_eq, hstep]; exact he)
        rwa [Scan.next_eq, hstep] at this
      simp only [he, beq_iff_eq, if_false]
      exact scanAll_succ f s' _ (by omega)
  case case2 s s' hstep ih =>
    have hlt : s'.rest.length < s.rest.length :=
      Nat.lt_of_lt_of_le (scanOne_skip_shorter hstep) (skipBlanks_suffix s).length_le
    rw [scanAll, hstep]
    dsimp only
    obtain ⟨g, rfl⟩ : ∃ g, f = g + 1 := ⟨f - 1, by omega⟩
    rw [ih g (by omega)]
    split
    · rfl
    · rename_i he
      exact scanAll_succ (g + 1) _ _ (Nat.lt_of_lt_of_le (Scan.next_lt he) (by omega))


/-- The scanning loop, given more fuel than characters, is the scanner called
    until it finds the end, at most once per character before it: the tokens
    of those calls, then the end token, which every later call gives again. -/
theorem scanAll_calls (s : Scan) (acc : Array Token) (fuel : Nat) (h : s.rest.length < fuel) :
    ∃ n e, (scanAll fuel s acc).1.toList = acc.toList ++ s.calls n ++ [e] ∧ e.kind = .eof ∧
      (∀ t ∈ s.calls n, t.kind ≠ .eof) ∧ n ≤ s.rest.length ∧
      ∀ k, s.calls (n + 1 + k) = s.calls n ++ e :: List.replicate k e := by
  rw [scanAll_eq_next acc h]
  split
  · -- the end: found by the first call, and by every one after it
    rename_i he
    obtain ⟨_, _, -, heof, -⟩ := Scan.next_reads s
    have hfix : s.next.2.next = (s.next.1, s.next.2) := (heof he).2.2
    refine ⟨0, s.next.1, by simp [Scan.calls], he, by simp [Scan.calls], Nat.zero_le _, fun k => ?_⟩
    rw [Nat.zero_add, Nat.add_comm, Scan.calls_succ, Scan.calls_of_next_eq hfix]
    rfl
  · -- a token: the rest of the loop runs from where the call left off
    rename_i he
    have hlt := Scan.next_lt he
    obtain ⟨n, e, hout, hek, hne, hn, hrep⟩ := scanAll_calls s.next.2 (acc.push s.next.1) fuel (by omega)
    refine ⟨n + 1, e, by simp [hout, Scan.calls_succ], hek, ?_, by omega, fun k => ?_⟩
    · intro t ht
      rw [Scan.calls_succ, List.mem_cons] at ht
      rcases ht with rfl | ht
      · exact he
      · exact hne t ht
    · rw [show n + 1 + 1 + k = (n + 1 + k) + 1 by omega, Scan.calls_succ, hrep k, Scan.calls_succ]
      rfl
termination_by s.rest.length
decreasing_by exact Scan.next_lt ‹_›

/-! ### Where the tokens stand in the bytes of the text -/

/-- A token stands at the byte offset `o` of the bytes `b`: its text is the
    bytes from there, as many as its span is long, and its line and column are
    those of the offset. -/
structure Token.ReadAt (t : Token) (b : List UInt8) (o : Nat) : Prop where
  text : t.lexeme.toUTF8.data.toList = (b.drop o).take t.span.len
  within : o + t.span.len ≤ b.length
  line : t.span.line = lineAt b o
  col : t.span.col = colAt b o

/-- The token of the characters `w` read after the characters `P`, at the
    position the scanner reached, stands where `w` starts in the bytes. -/
theorem readAt_after (P w rest : List Char) (k : TokenKind) :
    Token.ReadAt ⟨k, String.ofList w, ⟨(Pos.start.stepAll P).line, (Pos.start.stepAll P).col, String.utf8Len w⟩⟩
      (utf8Bytes (P ++ w ++ rest)) (Pos.start.stepAll P).offset := by
  have hoff : (Pos.start.stepAll P).offset = String.utf8Len P := by
    simp [Pos.stepAll_offset, Pos.start]
  have htake : (utf8Bytes (P ++ w ++ rest)).take (String.utf8Len P) = utf8Bytes P := by
    simp [List.take_left' (length_utf8Bytes P)]
  refine ⟨?_, ?_, ?_, ?_⟩
  · rw [toUTF8_eq_utf8Bytes, String.toList_ofList, hoff]
    simp [List.drop_left' (length_utf8Bytes P), List.take_left' (length_utf8Bytes w)]
  · simp [hoff]
  · rw [lineAt, hoff, htake, count_newline_utf8Bytes, Pos.stepAll_line]
    simp [Pos.start, Nat.add_comm]
  · rw [colAt, hoff, htake, length_takeWhile_utf8Bytes, Pos.start_stepAll_col]

/-- The scanner has read a prefix of the text from its start. -/
def Scan.Reached (src : List Char) (s : Scan) : Prop :=
  ∃ pre, src = pre ++ s.rest ∧ s.pos = Pos.start.stepAll pre

theorem Scan.Reached.reads {src w : List Char} {s s' : Scan} (h : s.Reached src) (hr : s.Reads s' w) :
    s'.Reached src := by
  obtain ⟨pre, hsrc, hpos⟩ := h
  exact ⟨pre ++ w, by rw [hsrc, hr.1, List.append_assoc], by rw [hr.2, hpos, Pos.stepAll_append]⟩

/-- The tokens of the calls from a reached state that are neither errors nor
    the end stand in the bytes of the text, at offsets no earlier than the
    state's, each ending no later than the next one starts. -/
theorem calls_placed (src : List Char) :
    ∀ (n : Nat) (s : Scan), s.Reached src →
      ∃ placed : List (Nat × Token),
        placed.map Prod.snd = (s.calls n).filter (fun t => t.kind != .error && t.kind != .eof) ∧
        (∀ p ∈ placed, s.pos.offset ≤ p.1 ∧ p.2.ReadAt (utf8Bytes src) p.1) ∧
        placed.Pairwise fun a b => a.1 < b.1 ∧ a.1 + a.2.span.len ≤ b.1
  | 0, _, _ => ⟨[], rfl, by simp, List.Pairwise.nil⟩
  | n + 1, s, hs => by
    obtain ⟨u, w, hr, -, hne, ht⟩ := Scan.next_reads s
    obtain ⟨placed, hmap, hat, hpair⟩ := calls_placed src n s.next.2 (hs.reads hr)
    have hoff : s.next.2.pos.offset = (s.pos.stepAll u).offset + String.utf8Len w := by
      rw [hr.2, Pos.stepAll_append, Pos.stepAll_offset]
    have hle : s.pos.offset ≤ (s.pos.stepAll u).offset := by
      rw [Pos.stepAll_offset]
      omega
    by_cases hreal : s.next.1.kind ≠ .error ∧ s.next.1.kind ≠ .eof
    · -- the token of this call stands right before those of the later calls
      obtain ⟨pre, hsrc, hpos⟩ := hs
      have htok := ht hreal.1 hreal.2
      have hw : 0 < String.utf8Len w :=
        Nat.pos_of_ne_zero fun h => hne hreal.2 (String.utf8Len_eq_zero.1 h)
      refine ⟨((s.pos.stepAll u).offset, s.next.1) :: placed, ?_, ?_, ?_⟩
      · simp [Scan.calls_succ, hmap, hreal.1, hreal.2]
      · intro p hp
        rcases List.mem_cons.1 hp with rfl | hp
        · refine ⟨hle, ?_⟩
          rw [htok]
          have hsrc' : src = pre ++ u ++ w ++ s.next.2.rest := by
            rw [hsrc, hr.1]
            simp
          rw [hsrc', hpos, ← Pos.stepAll_append]
          exact readAt_after (pre ++ u) w s.next.2.rest _
        · have := hat p hp
          exact ⟨by omega, this.2⟩
      · refine List.Pairwise.cons (fun b hb => ?_) hpair
        have := (hat b hb).1
        rw [htok]
        dsimp only
        omega
    · refine ⟨placed, ?_, fun p hp => ?_, hpair⟩
      · rw [Scan.calls_succ, List.filter_cons_of_neg (by simpa using hreal), hmap]
      · have := hat p hp
        exact ⟨by omega, this.2⟩


/-! ### The claim -/

theorem length_le_utf8Len (cs : List Char) : cs.length ≤ String.utf8Len cs := by
  induction cs with
  | nil => exact Nat.le_refl _
  | cons c cs ih =>
    have := Char.utf8Size_pos c
    simp only [List.length_cons, String.utf8Len_cons]
    omega

end ClassCompiler
