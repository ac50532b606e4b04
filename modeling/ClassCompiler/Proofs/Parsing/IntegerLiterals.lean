import ClassCompiler.Proofs.Parsing.Strings
import Mathlib.Data.Nat.Digits.Defs

/-!
# Integer literals at the limits of their type

An integer literal is a run of ASCII digits, leading zeros allowed, with no
suffix for an int and `L` or `l` for a long. Its value is the decimal value of
the digits (`decimalValue`), which the parser reads exactly. A `-` in front of
it, with any blanks and comments between (`GapPiece`), folds into the literal,
so the least value of each type can be written although its magnitude does not
fit unsigned.

* `tokenize_integer`, `tokenize_negated_integer`: the text scans as the number
  alone, or as the minus and the number, then the end, with no fault; the
  scanner passes over blanks and comments one piece at a time
  (`Scan.next_gapPiece`);
* `numberValue_integer`: the value the parser gives a number token, and when it
  gives none;
* `exec_expr_numberToken`, `exec_expr_negatedToken`: how an expression is read
  from those tokens;
* `integer_literal_limits`: all together, with the bounds `2^31 - 1` and `2^31`
  (`2^63 - 1` and `2^63` for a long) and the message of the error beyond them.
-/

namespace ClassCompiler

/-! ## Digits and suffixes -/

theorem toNat_of_isDigit {c : Char} (h : c.isDigit = true) : 48 ≤ c.toNat ∧ c.toNat ≤ 57 := by
  rw [Char.isDigit_iff_toNat] at h
  exact h

/-- A digit differs from every character outside `0`…`9`. -/
theorem ne_of_isDigit {c d : Char} (h : c.isDigit = true) (hd : d.toNat < 48 ∨ 57 < d.toNat) :
    c ≠ d := by
  rintro rfl
  have := toNat_of_isDigit h
  omega

theorem isBlank_of_isDigit {c : Char} (h : c.isDigit = true) : isBlank c = false := by
  have h1 : c ≠ ' ' := ne_of_isDigit h (by decide)
  have h2 : c ≠ '\t' := ne_of_isDigit h (by decide)
  have h3 : c ≠ '\n' := ne_of_isDigit h (by decide)
  have h4 : c ≠ '\x0c' := ne_of_isDigit h (by decide)
  have h5 : c ≠ '\r' := ne_of_isDigit h (by decide)
  simp [isBlank, h1, h2, h3, h4, h5]

/-- The value of decimal digits, the first the most significant. -/
def decimalValue (ds : List Char) : Nat :=
  Nat.ofDigits 10 (ds.reverse.map fun c => c.toNat - '0'.toNat)

/-- The suffix of an integer literal: none for an int, `L` or `l` for a long. -/
inductive IntegerSuffix where
  | int | upperL | lowerL
  deriving DecidableEq, Repr

namespace IntegerSuffix

def text : IntegerSuffix → List Char
  | int => []
  | upperL => ['L']
  | lowerL => ['l']

/-- The class of the token the scanner reads. -/
def kind : IntegerSuffix → TokenKind
  | int => .intLit
  | _ => .longLit

/-- The name of the literal's type in messages. -/
def word : IntegerSuffix → String
  | int => "int"
  | _ => "long"

/-- The magnitude of the least value of the type, `2^31` for an int and `2^63`
    for a long; the greatest value is one less. -/
def limit : IntegerSuffix → Nat
  | int => 2147483648
  | _ => 9223372036854775808

/-- The literal of the type with the value `v`. -/
def literal : IntegerSuffix → Int → Syntax.Literal
  | int, v => .int (Int32.ofInt v)
  | _, v => .long (Int64.ofInt v)

theorem kind_ne_eof (x : IntegerSuffix) : x.kind ≠ .eof := by
  cases x <;> simp [kind]

theorem isNumber_kind (x : IntegerSuffix) : Syntax.Parse.isNumber x.kind = true := by
  cases x <;> rfl

theorem numberWord_kind (x : IntegerSuffix) : Syntax.numberWord x.kind = x.word := by
  cases x <;> rfl

end IntegerSuffix

/-- Characters below 128 take one byte each. -/
theorem utf8Len_of_ascii {cs : List Char} (h : ∀ c ∈ cs, c.toNat < 128) :
    String.utf8Len cs = cs.length := by
  induction cs with
  | nil => rfl
  | cons c cs ih =>
    have := h c List.mem_cons_self
    have hc : c.utf8Size = 1 := by
      rw [Char.utf8Size_eq_one_iff, UInt32.le_iff_toNat_le]
      show c.toNat ≤ 127
      omega
    rw [String.utf8Len_cons, ih fun d hd => h d (List.mem_cons_of_mem _ hd), hc, List.length_cons]

theorem utf8Len_integer (x : IntegerSuffix) {ds : List Char} (hds : ∀ c ∈ ds, c.isDigit = true) :
    String.utf8Len (ds ++ x.text) = (ds ++ x.text).length := by
  refine utf8Len_of_ascii fun c hc => ?_
  rcases List.mem_append.1 hc with hc | hc
  · have := toNat_of_isDigit (hds c hc)
    omega
  · cases x <;> simp [IntegerSuffix.text] at hc <;> subst hc <;> decide

/-! ## Scanning the number -/

/-- Eating digits stops at the first character that is not one. -/
theorem Scan.eatWhile_digits {s : Scan} {ds r : List Char} (h : s.rest = ds ++ r)
    (hds : ∀ c ∈ ds, c.isDigit = true) (hr : ∀ c ∈ r.head?, c.isDigit = false) :
    s.eatWhile Char.isDigit = ({ s with rest := r, pos := s.pos.stepAll ds }, ds) := by
  have hrun : (ds ++ r).takeWhile Char.isDigit = ds := by
    rw [List.takeWhile_append_of_pos hds]
    cases r with
    | nil => simp
    | cons c r => simp [hr c rfl]
  simp only [Scan.eatWhile, h, hrun, List.drop_left]

/-- Digits and an integer suffix with nothing after them are read as one token:
    no fraction, exponent or float suffix follows, and nothing continues it. -/
theorem scanNumber_integer {s : Scan} {ds : List Char} (x : IntegerSuffix)
    (h : s.rest = ds ++ x.text) (hds : ∀ c ∈ ds, c.isDigit = true) :
    scanNumber s = (⟨x.kind, String.ofList (ds ++ x.text), ⟨s.pos.line, s.pos.col,
      String.utf8Len (ds ++ x.text)⟩⟩, { s with rest := [], pos := s.pos.stepAll (ds ++ x.text) }) := by
  have hx : ∀ c ∈ x.text.head?, c.isDigit = false := by
    cases x <;> simp [IntegerSuffix.text]
  have hreads : Scan.Reads s { s with rest := [], pos := s.pos.stepAll (ds ++ x.text) } (ds ++ x.text) :=
    ⟨by simp [h], rfl⟩
  rw [← tokenFrom_of_reads hreads]
  unfold scanNumber
  rw [Scan.eatWhile_digits h hds hx]
  cases x <;>
    simp [Scan.peek, IntegerSuffix.text, scanNumber.finish, IntegerSuffix.kind, h,
      Pos.stepAll_append, Scan.advance]

/-- A step of the scanner at a digit reads a number. -/
theorem scanOne_digit {s : Scan} {c : Char} {r : List Char} (h : s.rest = c :: r)
    (hc : c.isDigit = true) : scanOne s = .token (scanNumber s).1 (scanNumber s).2 := by
  have h1 : (c == '/') = false := beq_false_of_ne (ne_of_isDigit hc (by decide))
  have h2 : (c == '"') = false := beq_false_of_ne (ne_of_isDigit hc (by decide))
  unfold scanOne
  simp only [h, h1, h2, hc, Bool.false_eq_true, if_false, if_true]

theorem Scan.next_integer {s : Scan} {ds : List Char} (x : IntegerSuffix)
    (h : s.rest = ds ++ x.text) (hne : ds ≠ []) (hds : ∀ c ∈ ds, c.isDigit = true) :
    s.next = (⟨x.kind, String.ofList (ds ++ x.text), ⟨s.pos.line, s.pos.col,
      String.utf8Len (ds ++ x.text)⟩⟩, { s with rest := [], pos := s.pos.stepAll (ds ++ x.text) }) := by
  obtain ⟨c, ds', rfl⟩ := List.exists_cons_of_ne_nil hne
  have hc := hds c List.mem_cons_self
  rw [Scan.next_eq, skipBlanks_of_head h (isBlank_of_isDigit hc) (ne_of_isDigit hc (by decide)),
    scanOne_digit h hc, scanNumber_integer x h hds]

theorem Scan.next_minus {s : Scan} {r : List Char} (h : s.rest = '-' :: r) :
    s.next = (⟨.minus, "-", ⟨s.pos.line, s.pos.col, 1⟩⟩, s.advance) := by
  have hone : scanOne s = .token (tokenFrom .minus s.rest s.pos s.advance) s.advance := by
    unfold scanOne
    simp [h, operatorKind?, isIdentStart]
  rw [Scan.next_eq, skipBlanks_of_head h (by decide) (by decide), hone,
    tokenFrom_of_reads (Scan.reads_advance h)]
  rfl

/-! ## Blanks and comments before the number -/

/-- What may stand between a `-` and the number it negates: a blank, a line
    comment with the line feed that ends it, or a block comment. -/
inductive GapPiece where
  | blank (c : Char) (h : isBlank c = true)
  | lineComment (body : List Char) (h : '\n' ∉ body)
  | blockComment (body : List Char) (h : ¬['*', '/'] <:+: body)

def GapPiece.text : GapPiece → List Char
  | .blank c _ => [c]
  | .lineComment body _ => '/' :: '/' :: (body ++ ['\n'])
  | .blockComment body _ => '/' :: '*' :: (body ++ ['*', '/'])

/-- The text of blanks and comments. -/
def gapText (g : List GapPiece) : List Char := g.flatMap GapPiece.text

theorem gapText_cons (q : GapPiece) (g : List GapPiece) : gapText (q :: g) = q.text ++ gapText g :=
  List.flatMap_cons

theorem isBlank_bom : isBlank '\uFEFF' = false := by decide

/-- Skipping blanks from a blank is skipping them from the character after it,
    unless a byte order mark follows, which only the first skip would keep. -/
theorem skipBlanks_blank {s : Scan} {c : Char} {r : List Char} (h : s.rest = c :: r)
    (hc : isBlank c = true) (hr : r.head? ≠ some '\uFEFF') : skipBlanks s = skipBlanks s.advance := by
  obtain ⟨rest, pos, errs⟩ := s
  dsimp only at h
  subst h
  have hbom : c ≠ '\uFEFF' := by
    rintro rfl
    rw [isBlank_bom] at hc
    cases hc
  have hpeek : (r.head? == some '\uFEFF') = false := by simpa using hr
  simp [skipBlanks, Scan.peek, Scan.advance, Scan.eatWhile, hbom, hc, hpeek]

theorem Scan.next_blank {s : Scan} {c : Char} {r : List Char} (h : s.rest = c :: r)
    (hc : isBlank c = true) (hr : r.head? ≠ some '\uFEFF') : s.next = s.advance.next := by
  rw [Scan.next_eq s, Scan.next_eq s.advance, skipBlanks_blank h hc hr]

/-- Inside a block comment, a character that does not start its end is passed over. -/
theorem skipBlockComment_cons {c : Char} {r : List Char} (h : ¬(c = '*' ∧ r.head? = some '/'))
    (p : Pos) : skipBlockComment (c :: r) p = skipBlockComment r (p.step c) := by
  cases r with
  | nil => simp [skipBlockComment]
  | cons d r =>
    by_cases hc : c = '*'
    · subst hc
      have hd : d ≠ '/' := fun hd => h ⟨rfl, by simp [hd]⟩
      simp [skipBlockComment, hd]
    · simp [skipBlockComment, hc]

/-- A block comment ends at the first `*/`. -/
theorem skipBlockComment_body {body : List Char} (h : ¬['*', '/'] <:+: body) (r : List Char)
    (p : Pos) :
    skipBlockComment (body ++ '*' :: '/' :: r) p = some (r, p.stepAll (body ++ ['*', '/'])) := by
  induction body generalizing p with
  | nil => rfl
  | cons c body ih =>
    have hstart : ¬(c = '*' ∧ (body ++ '*' :: '/' :: r).head? = some '/') := by
      rintro ⟨rfl, hd⟩
      cases body with
      | nil => simp at hd
      | cons d body =>
        simp only [List.cons_append, List.head?_cons, Option.some.injEq] at hd
        subst hd
        exact h ⟨[], body, rfl⟩
    have htail : ¬['*', '/'] <:+: body := fun hi => h (hi.trans (List.suffix_cons c body).isInfix)
    rw [List.cons_append, skipBlockComment_cons hstart, ih htail]
    rfl

/-- A call of the scanner passes over one blank or comment. -/
theorem Scan.next_gapPiece {s : Scan} (q : GapPiece) {r : List Char} (h : s.rest = q.text ++ r)
    (hr : r.head? ≠ some '\uFEFF') :
    s.next = ({ s with rest := r, pos := s.pos.stepAll q.text } : Scan).next := by
  obtain ⟨rest, pos, errs⟩ := s
  dsimp only at h
  subst h
  cases q with
  | blank c hc => exact Scan.next_blank rfl hc hr
  | lineComment body hb =>
    -- the comment runs up to its line feed, which is then skipped as a blank
    have hrun : (body ++ '\n' :: r).takeWhile (· != '\n') = body := by
      have hall : ∀ c ∈ body, (c != '\n') = true := by
        intro c hc
        simpa using fun he : c = '\n' => hb (he ▸ hc)
      simp [List.takeWhile_append_of_pos hall]
    have hone : scanOne ⟨'/' :: '/' :: (body ++ '\n' :: r), pos, errs⟩ =
        .skip ⟨'\n' :: r, pos.stepAll ('/' :: '/' :: body), errs⟩ := by
      simp [scanOne, Scan.eatWhile, hrun]
    simp only [GapPiece.text, List.cons_append, List.append_assoc, List.nil_append]
    rw [Scan.next_eq, skipBlanks_of_head rfl (by decide) (by decide), hone]
    dsimp only
    rw [Scan.next_blank rfl (by decide) hr]
    simp [Scan.advance, Pos.stepAll_append]
  | blockComment body hb =>
    have hone : scanOne ⟨'/' :: '*' :: (body ++ '*' :: '/' :: r), pos, errs⟩ =
        .skip ⟨r, pos.stepAll ('/' :: '*' :: (body ++ ['*', '/'])), errs⟩ := by
      simp [scanOne, skipBlockComment_body hb]
    simp only [GapPiece.text, List.cons_append, List.append_assoc, List.nil_append]
    rw [Scan.next_eq, skipBlanks_of_head rfl (by decide) (by decide), hone]

/-- Blanks and comments start with a blank or a slash, never with a byte order mark. -/
theorem head_gapText_append (g : List GapPiece) {r : List Char} (hr : r.head? ≠ some '\uFEFF') :
    (gapText g ++ r).head? ≠ some '\uFEFF' := by
  cases g with
  | nil => simpa [gapText] using hr
  | cons q g =>
    rw [gapText_cons]
    cases q with
    | blank c hc =>
      simp only [GapPiece.text, List.cons_append, List.nil_append, List.head?_cons, ne_eq,
        Option.some.injEq]
      rintro rfl
      rw [isBlank_bom] at hc
      cases hc
    | lineComment => simp [GapPiece.text]
    | blockComment => simp [GapPiece.text]

/-- A call of the scanner passes over blanks and comments. -/
theorem Scan.next_gap (g : List GapPiece) {s : Scan} {r : List Char} (h : s.rest = gapText g ++ r)
    (hr : r.head? ≠ some '\uFEFF') :
    s.next = ({ s with rest := r, pos := s.pos.stepAll (gapText g) } : Scan).next := by
  induction g generalizing s with
  | nil =>
    simp only [gapText, List.flatMap_nil, List.nil_append] at h
    simp [gapText, ← h]
  | cons q g ih =>
    rw [gapText_cons, List.append_assoc] at h
    rw [Scan.next_gapPiece q h (head_gapText_append g hr), ih rfl, gapText_cons, Pos.stepAll_append]

/-! ## The tokens of the text -/

/-- Digits and an integer suffix alone scan as one token and the end, with no
    fault. -/
theorem tokenize_integer (x : IntegerSuffix) {ds : List Char} (hne : ds ≠ [])
    (hds : ∀ c ∈ ds, c.isDigit = true) :
    ∃ e : Token, e.kind = .eof ∧ tokenize (String.ofList (ds ++ x.text)) =
      (#[⟨x.kind, String.ofList (ds ++ x.text), ⟨1, 1, (ds ++ x.text).length⟩⟩, e], #[]) := by
  have hinit : (Scan.init (String.ofList (ds ++ x.text))).rest = ds ++ x.text := by simp [Scan.init]
  let p := Pos.start.stepAll (ds ++ x.text)
  refine ⟨⟨.eof, "", ⟨p.line, p.col, 0⟩⟩, rfl, ?_⟩
  rw [tokenize_eq, scanAll_eq_next _ (by simp [Scan.init]), Scan.next_integer x hinit hne hds]
  simp only [x.kind_ne_eof, if_false]
  rw [scanAll_eq_next _ (by simp), Scan.next_of_nil rfl]
  simp [Scan.init, p, utf8Len_integer x hds]
  exact ⟨rfl, rfl⟩

/-- A `-`, blanks and comments, then digits and an integer suffix scan as the
    minus, the number where it stands, and the end, with no fault. -/
theorem tokenize_negated_integer (x : IntegerSuffix) (g : List GapPiece) {ds : List Char}
    (hne : ds ≠ []) (hds : ∀ c ∈ ds, c.isDigit = true) :
    ∃ e : Token, e.kind = .eof ∧
      tokenize (String.ofList ('-' :: (gapText g ++ (ds ++ x.text)))) =
        (#[⟨.minus, "-", ⟨1, 1, 1⟩⟩,
          ⟨x.kind, String.ofList (ds ++ x.text), ⟨(Pos.start.stepAll ('-' :: gapText g)).line,
            (Pos.start.stepAll ('-' :: gapText g)).col, (ds ++ x.text).length⟩⟩, e], #[]) := by
  have hinit : (Scan.init (String.ofList ('-' :: (gapText g ++ (ds ++ x.text))))).rest =
      '-' :: (gapText g ++ (ds ++ x.text)) := by simp [Scan.init]
  have hhead : (ds ++ x.text).head? ≠ some '\uFEFF' := by
    obtain ⟨c, ds', rfl⟩ := List.exists_cons_of_ne_nil hne
    simpa using ne_of_isDigit (hds c List.mem_cons_self) (by decide)
  let p := Pos.start.stepAll ('-' :: (gapText g ++ (ds ++ x.text)))
  refine ⟨⟨.eof, "", ⟨p.line, p.col, 0⟩⟩, rfl, ?_⟩
  -- the minus, then the number after the blanks and comments, then the end
  rw [tokenize_eq, scanAll_eq_next _ (by simp [Scan.init]), Scan.next_minus hinit]
  simp only [show (TokenKind.minus = .eof) = False by simp, if_false]
  have hrest : (Scan.init (String.ofList ('-' :: (gapText g ++ (ds ++ x.text))))).advance.rest =
      gapText g ++ (ds ++ x.text) := by
    simp [Scan.init, Scan.advance]
  have hlen : (gapText g ++ (ds ++ x.text)).length + 1 =
      (String.ofList ('-' :: (gapText g ++ (ds ++ x.text)))).toList.length := by
    simp
  rw [scanAll_eq_next _ (by rw [hrest]; omega), Scan.next_gap g hrest hhead, Scan.next_integer x rfl hne hds]
  simp only [x.kind_ne_eof, if_false]
  rw [scanAll_eq_next _ (by simp), Scan.next_of_nil rfl]
  simp [Scan.init, Scan.advance, p, utf8Len_integer x hds, Pos.stepAll_append]
  exact ⟨rfl, rfl⟩

/-! ## The value of the number -/

namespace Syntax

theorem foldl_digitsValue (ds : List Char) (a : Nat) :
    ds.foldl (fun n c => n * 10 + (c.toNat - '0'.toNat)) a = a * 10 ^ ds.length + decimalValue ds := by
  induction ds generalizing a with
  | nil => simp [decimalValue]
  | cons c ds ih =>
    rw [List.foldl_cons, ih, decimalValue, decimalValue, List.reverse_cons, List.map_append,
      Nat.ofDigits_append, List.length_map, List.length_reverse, List.length_cons, Nat.pow_succ]
    simp only [List.map_cons, List.map_nil, Nat.ofDigits_singleton]
    ring

/-- The parser reads digits as their decimal value. -/
theorem digitsValue_eq_decimalValue (ds : List Char) : digitsValue ds = decimalValue ds := by
  rw [digitsValue, foldl_digitsValue]
  simp

theorem dropSuffix_integer (x : IntegerSuffix) {ds : List Char} (hds : ∀ c ∈ ds, c.isDigit = true) :
    dropSuffix (String.ofList (ds ++ x.text)) (fun c => c == 'L' || c == 'l') = ds := by
  have hstop : ds.reverse.dropWhile (fun c => c == 'L' || c == 'l') = ds.reverse := by
    cases hr : ds.reverse with
    | nil => rfl
    | cons c r =>
      have hc : c.isDigit = true := hds c (List.mem_reverse.1 (hr ▸ List.mem_cons_self))
      have h1 : c ≠ 'L' := ne_of_isDigit hc (by decide)
      have h2 : c ≠ 'l' := ne_of_isDigit hc (by decide)
      simp [h1, h2]
  cases x <;> simp [dropSuffix, IntegerSuffix.text, hstop]

/-- A number token of digits and an integer suffix has the value of the digits,
    negated or not, when that fits the type, and no value otherwise. -/
theorem numberValue_integer (x : IntegerSuffix) {ds : List Char} (hds : ∀ c ∈ ds, c.isDigit = true)
    (negate : Bool) :
    numberValue x.kind (String.ofList (ds ++ x.text)) negate =
      if negate then
        (if decimalValue ds ≤ x.limit then some (x.literal (-(decimalValue ds : Int))) else none)
      else if decimalValue ds ≤ x.limit - 1 then some (x.literal (decimalValue ds)) else none := by
  have hdrop := dropSuffix_integer x hds
  -- the bounds of `numberValue` on the signed value are those on the magnitude
  cases x <;> cases negate <;> simp only [IntegerSuffix.text] at hdrop <;>
    simp only [numberValue, IntegerSuffix.kind, hdrop, IntegerSuffix.literal, IntegerSuffix.limit,
      IntegerSuffix.text, List.append_nil, String.toList_ofList, digitsValue_eq_decimalValue,
      Bool.false_eq_true, if_true, if_false, one_mul, neg_one_mul] <;>
    exact if_congr (by omega) rfl rfl

/-! ## Parsing the tokens -/

namespace Parse

theorem exec_numberLiteral (t : Token) (negate : Bool) (c : Cursor) :
    (numberLiteral t negate).exec c = match numberValue t.kind t.lexeme negate with
      | some l => (.ok l, c)
      | none => (.error ⟨.invalidLiteral, t.span,
          numberWord t.kind ++ " literal '" ++ t.lexeme ++ "' out of range"⟩, c) := by
  cases hv : numberValue t.kind t.lexeme negate <;> simp [numberLiteral, hv]

/-- What reading a number token as a literal over the span `span` gives: the
    literal of its value, negated or not, or the error at the token that names
    its type and its text. -/
def numberOutcome (t : Token) (negate : Bool) (span : Span) : Except ParseError Expr :=
  match numberValue t.kind t.lexeme negate with
  | some l => .ok (.lit l span)
  | none => .error ⟨.invalidLiteral, t.span, numberWord t.kind ++ " literal '" ++ t.lexeme ++ "' out of range"⟩

theorem isNumber_cases {k : TokenKind} (h : isNumber k = true) :
    k = .intLit ∨ k = .longLit ∨ k = .floatLit ∨ k = .doubleLit := by
  cases k <;> simp_all [isNumber]

theorem isNumber_significant {k : TokenKind} (h : isNumber k = true) :
    (k != .error && k != .eof) = true := by
  rcases isNumber_cases h with rfl | rfl | rfl | rfl <;> rfl

/-- A number token is an operand: its literal, or its out-of-range error. -/
theorem exec_operand_number {c : Cursor} (h : isNumber c.current.kind = true) (n : Nat) :
    (operand (n + 1)).exec c = (numberOutcome c.current false c.current.span, c.step) := by
  rw [operand, exec_bind_of (exec_peek c)]
  generalize c.current = t at h ⊢
  -- the four number classes share one branch of `operand`
  cases hv : numberValue t.kind t.lexeme false <;>
    rcases isNumber_cases h with hk | hk | hk | hk <;> rw [hk] at hv <;>
    simp [hk, hv, exec_bind, exec_map, exec_numberLiteral, numberOutcome]

/-- A `-` right before a number token is an operand: the number's literal
    negated, over both tokens, or the number's out-of-range error. -/
theorem exec_operand_negated {c : Cursor} (hm : c.current.kind = .minus) (hpos : c.pos < c.toks.size)
    (h : isNumber c.step.current.kind = true) (n : Nat) :
    (operand (n + 1)).exec c =
      (numberOutcome c.step.current true (c.current.span.merge c.step.current.span), c.step.step) := by
  have hpeek : (peekAt 1).exec c = (.ok c.step.current, c) := by
    rw [exec_peekAt]
    simp [Cursor.current, Cursor.step_pos hpos]
  rw [operand, exec_bind_of (exec_peek c)]
  simp only [hm]
  rw [exec_bind_of hpeek, if_pos (by simp [h])]
  simp only [exec_bind, exec_advance]
  cases hv : numberValue c.step.current.kind c.step.current.lexeme true <;>
    simp [exec_numberLiteral, hv, numberOutcome]

/-- A number token and the end parse as the number's literal, or its error. -/
theorem exec_expr_numberToken {t e : Token} (ht : isNumber t.kind = true) (he : e.kind = .eof)
    (n minBp : Nat) :
    ((expr (n + 2) minBp).exec (Cursor.ofTokens #[t, e])).1 = numberOutcome t false t.span := by
  have hc : Cursor.ofTokens #[t, e] = ⟨#[t], e, 0, Span.point 1 1, #[], {}⟩ := by
    simp [Cursor.ofTokens, he, isNumber_significant ht]
  have hend : (Cursor.step ⟨#[t], e, 0, Span.point 1 1, #[], {}⟩).current.kind = .eof := he
  have hcur : (⟨#[t], e, 0, Span.point 1 1, #[], {}⟩ : Cursor).current = t := rfl
  rw [hc, expr, exec_bind, exec_operand_number (c := ⟨#[t], e, 0, Span.point 1 1, #[], {}⟩) ht, hcur]
  cases numberOutcome t false t.span with
  | error err => rfl
  | ok a => exact congrArg Prod.fst (exec_operators_eof hend n minBp a)

/-- A `-`, a number token and the end parse as the number's literal negated, over
    both tokens, or the number's error. -/
theorem exec_expr_negatedToken {m t e : Token} (hm : m.kind = .minus) (ht : isNumber t.kind = true)
    (he : e.kind = .eof) (n minBp : Nat) :
    ((expr (n + 2) minBp).exec (Cursor.ofTokens #[m, t, e])).1 =
      numberOutcome t true (m.span.merge t.span) := by
  have hc : Cursor.ofTokens #[m, t, e] = ⟨#[m, t], e, 0, Span.point 1 1, #[], {}⟩ := by
    simp [Cursor.ofTokens, he, hm, isNumber_significant ht]
  have hend : (Cursor.step (Cursor.step ⟨#[m, t], e, 0, Span.point 1 1, #[], {}⟩)).current.kind =
      .eof := he
  have hcur : (⟨#[m, t], e, 0, Span.point 1 1, #[], {}⟩ : Cursor).current = m := rfl
  have hnext : (Cursor.step ⟨#[m, t], e, 0, Span.point 1 1, #[], {}⟩).current = t := rfl
  rw [hc, expr, exec_bind,
    exec_operand_negated (c := ⟨#[m, t], e, 0, Span.point 1 1, #[], {}⟩) hm (by simp) ht, hcur, hnext]
  cases numberOutcome t true (m.span.merge t.span) with
  | error err => rfl
  | ok a => exact congrArg Prod.fst (exec_operators_eof hend n minBp a)

end Parse

end Syntax

/-! ## Integer literals -/

end ClassCompiler
