import ClassCompiler.Source.Token

/-!
# Scanning

Source text as a list of tokens ending in `eof`, and the lexical errors in the
order they were found. Before each token one byte order mark and then ASCII
blanks are skipped, and so are comments (`//` to the end of the line, `/*` to
the next `*/`). Identifiers are ASCII letters, digits and `_`, not starting
with a digit. A number is digits, then a fraction only if a digit follows the
point, then an exponent, then a suffix (`f` for float, `L` for long when there
was no fraction or exponent). A string runs to its closing quote on the same
line; a bad escape is recorded but does not end it.
-/

namespace ClassCompiler

/-- A position in the source: line and column (bytes, from 1), byte offset, and
    the number of characters before it. -/
structure Pos where
  line : Nat
  col : Nat
  offset : Nat
  chars : Nat
  deriving Repr, Inhabited

namespace Pos

def start : Pos := ⟨1, 1, 0, 0⟩

/-- The position after a character. -/
def step (p : Pos) (c : Char) : Pos :=
  if c = '\n' then ⟨p.line + 1, 1, p.offset + 1, p.chars + 1⟩
  else ⟨p.line, p.col + c.utf8Size, p.offset + c.utf8Size, p.chars + 1⟩

/-- The position after some characters. -/
def stepAll (p : Pos) (cs : List Char) : Pos := cs.foldl step p

/-- The span from `p` up to `q`. -/
def spanTo (p q : Pos) : Span := ⟨p.line, p.col, q.offset - p.offset⟩

end Pos

/-- Letters and `_` start identifiers. -/
def isIdentStart (c : Char) : Bool := c.isAlpha || c == '_'

/-- Letters, digits and `_` continue identifiers. -/
def isIdentContinue (c : Char) : Bool := c.isAlphanum || c == '_'

/-- The blanks skipped between tokens: space, tab, line feed, form feed and
    carriage return. -/
def isBlank (c : Char) : Bool :=
  c == ' ' || c == '\t' || c == '\n' || c == '\x0c' || c == '\r'

/-- The scanner's state: the characters still to read and where they start. -/
structure Scan where
  rest : List Char
  pos : Pos
  errors : Array LexError

namespace Scan

/-- Consume the longest run of characters satisfying `p`. -/
def eatWhile (s : Scan) (p : Char → Bool) : Scan × List Char :=
  let run := s.rest.takeWhile p
  ({ s with rest := s.rest.drop run.length, pos := s.pos.stepAll run }, run)

/-- Consume one character. -/
def advance (s : Scan) : Scan :=
  match s.rest with
  | [] => s
  | c :: r => { s with rest := r, pos := s.pos.step c }

def peek (s : Scan) : Option Char := s.rest.head?

def peek2 (s : Scan) : Option Char := s.rest.tail.head?

/-- Record a fault. -/
def record (s : Scan) (e : LexError) : Scan := { s with errors := s.errors.push e }

end Scan

/-- The token of the characters read since `start`, which began at `from`. -/
def tokenFrom (kind : TokenKind) (src : List Char) (start : Pos) (s : Scan) : Token :=
  ⟨kind, String.ofList (src.take (s.pos.chars - start.chars)), start.spanTo s.pos⟩

/-- An error token for a fault, which is recorded. -/
def errorToken (s : Scan) (e : LexError) : Token × Scan :=
  (⟨.error, "", e.span⟩, s.record e)

/-- Read the rest of a string literal after its opening quote. -/
def scanStringBody (start : Pos) (src : List Char) : List Char → Pos → Array LexError → Token × Scan
  | [], p, errs => errorToken ⟨[], p, errs⟩ (.unterminatedString (start.spanTo p))
  | '\n' :: r, p, errs => errorToken ⟨'\n' :: r, p, errs⟩ (.unterminatedString (start.spanTo p))
  | '"' :: r, p, errs =>
    let s : Scan := ⟨r, p.step '"', errs⟩
    (tokenFrom .stringLit src start s, s)
  | ['\\'], p, errs =>
    let p' := p.step '\\'
    errorToken ⟨[], p', errs⟩ (.unterminatedString (start.spanTo p'))
  | '\\' :: c :: r, p, errs =>
    let p' := p.step '\\'
    if c == 'n' || c == 't' || c == 'r' || c == '0' || c == '\\' || c == '"' then
      scanStringBody start src r (p'.step c) errs
    else if c == '\n' then scanStringBody start src (c :: r) p' errs
    else
      scanStringBody start src r (p'.step c)
        (errs.push (.invalidEscape c ⟨p.line, p.col, 1 + c.utf8Size⟩))
  | c :: r, p, errs => scanStringBody start src r (p.step c) errs

/-- Read a number literal. -/
def scanNumber (s : Scan) : Token × Scan :=
  let start := s.pos
  let src := s.rest
  let (s, _) := s.eatWhile Char.isDigit
  let (s, isDouble) :=
    if s.peek == some '.' && (s.peek2.map Char.isDigit).getD false then
      ((s.advance.eatWhile Char.isDigit).1, true)
    else (s, false)
  let expo : Option Scan :=
    if s.peek == some 'e' || s.peek == some 'E' then
      let s := s.advance
      some (if s.peek == some '+' || s.peek == some '-' then s.advance else s)
    else none
  match expo with
  | some s' =>
    let (s'', ds) := s'.eatWhile Char.isDigit
    if ds.isEmpty then errorToken s' (.invalidNumber (start.spanTo s'.pos) .missingExponent)
    else finish start src s'' true
  | none => finish start src s isDouble
where
  finish (start : Pos) (src : List Char) (s : Scan) (isDouble : Bool) : Token × Scan :=
    let (s, kind) :=
      if s.peek == some 'f' || s.peek == some 'F' then (s.advance, TokenKind.floatLit)
      else if (s.peek == some 'L' || s.peek == some 'l') && !isDouble then (s.advance, .longLit)
      else if isDouble then (s, .doubleLit)
      else (s, .intLit)
    if (s.peek.map isIdentContinue).getD false then
      let (s, _) := s.eatWhile isIdentContinue
      errorToken s (.invalidNumber (start.spanTo s.pos) .invalidSuffix)
    else (tokenFrom kind src start s, s)

/-- The operator or delimiter spelled by one character, or by two when the
    second is given. -/
def operatorKind? (c : Char) (next : Option Char) : Option (TokenKind × Bool) :=
  match c, next with
  | '(', _ => some (.lParen, false)
  | ')', _ => some (.rParen, false)
  | '[', _ => some (.lBracket, false)
  | ']', _ => some (.rBracket, false)
  | '\x7b', _ => some (.lBrace, false)
  | '\x7d', _ => some (.rBrace, false)
  | ';', _ => some (.semicolon, false)
  | ',', _ => some (.comma, false)
  | ':', _ => some (.colon, false)
  | '.', _ => some (.dot, false)
  | '+', _ => some (.plus, false)
  | '-', _ => some (.minus, false)
  | '*', _ => some (.star, false)
  | '%', _ => some (.percent, false)
  | '=', some '=' => some (.eqEq, true)
  | '=', _ => some (.assign, false)
  | '!', some '=' => some (.bangEq, true)
  | '!', _ => some (.bang, false)
  | '<', some '=' => some (.lessEq, true)
  | '<', _ => some (.less, false)
  | '>', some '=' => some (.greaterEq, true)
  | '>', _ => some (.greater, false)
  | '&', some '&' => some (.ampAmp, true)
  | '|', some '|' => some (.pipePipe, true)
  | _, _ => none

/-- Skip the rest of a block comment after its `/*`; `none` when it never ends. -/
def skipBlockComment : List Char → Pos → Option (List Char × Pos)
  | [], _ => none
  | '*' :: '/' :: r, p => some (r, (p.step '*').step '/')
  | c :: r, p => skipBlockComment r (p.step c)

/-- What one step of the scanner finds: a token, or a comment to skip. -/
inductive Step where
  | token (t : Token) (s : Scan)
  | skip (s : Scan)

/-- Scan after the blanks: one token, or one comment. -/
def scanOne (s : Scan) : Step :=
  match s.rest with
  | [] => .token ⟨.eof, "", ⟨s.pos.line, s.pos.col, 0⟩⟩ s
  | c :: r =>
    let start := s.pos
    if c == '/' then
      match r with
      | '/' :: _ => .skip (s.eatWhile (· != '\n')).1
      | '*' :: r' =>
        match skipBlockComment r' ((start.step '/').step '*') with
        | some (r'', p) => .skip { s with rest := r'', pos := p }
        | none =>
          let p := Pos.stepAll start s.rest
          let s' : Scan := { s with rest := [], pos := p }
          let (t, s') := errorToken s' (.unterminatedComment (start.spanTo p))
          .token t s'
      | _ => .token (tokenFrom .slash s.rest start s.advance) s.advance
    else if c == '"' then
      let (t, s') := scanStringBody start s.rest r (start.step '"') s.errors
      .token t s'
    else if c.isDigit then
      let (t, s') := scanNumber s
      .token t s'
    else if isIdentStart c then
      let (s', run) := s.eatWhile isIdentContinue
      let kind := (TokenKind.keyword? (String.ofList run)).getD .ident
      .token (tokenFrom kind s.rest start s') s'
    else
      match operatorKind? c r.head? with
      | some (kind, two) =>
        let s' := if two then s.advance.advance else s.advance
        .token (tokenFrom kind s.rest start s') s'
      | none =>
        let s' := s.advance
        let (t, s') := errorToken s' (.unexpectedChar c (start.spanTo s'.pos))
        .token t s'

/-- Skip one byte order mark, then blanks. -/
def skipBlanks (s : Scan) : Scan :=
  let s := if s.peek == some '﻿' then s.advance else s
  (s.eatWhile isBlank).1

/-- Scan tokens until the end, at most `fuel` steps; every step but the last
    consumes a character. -/
def scanAll : Nat → Scan → Array Token → Array Token × Array LexError
  | 0, s, acc => (acc.push ⟨.eof, "", ⟨s.pos.line, s.pos.col, 0⟩⟩, s.errors)
  | fuel + 1, s, acc =>
    match scanOne (skipBlanks s) with
    | .skip s' => scanAll fuel s' acc
    | .token t s' =>
      if t.kind == .eof then (acc.push t, s'.errors) else scanAll fuel s' (acc.push t)

/-- The tokens of a source text, ending with `eof`, and the faults found. -/
def tokenize (src : String) : Array Token × Array LexError :=
  let cs := src.toList
  scanAll (cs.length + 1) ⟨cs, Pos.start, #[]⟩ #[]

end ClassCompiler
