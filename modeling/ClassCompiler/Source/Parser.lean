import ClassCompiler.Source.Lexer
import ClassCompiler.Source.Literal
import ClassCompiler.Source.ParseError

/-!
# Parser

Recursive descent over the significant tokens (the scanner's error tokens are
left out, their errors already recorded), with precedence climbing for binary
operators.

* Binding powers: `||` (3,4), `&&` (5,6), `== !=` (13,14), `< <= > >=` (15,16),
  `+ -` (19,20), `* / %` (21,22); assignment (2,1) associates to the right;
  postfix `.`, `[`, `(` bind with 27 and a prefix `-` or `!` takes its operand
  at 25.
* A `-` right before a number token is part of the literal.
* Recovery: inside a block, after an error, skip past the next `;` or up to
  `}` or a token that starts a statement; at the top level skip to the next
  declaration keyword. Every error is kept; lexical errors come first and the
  whole list is then sorted stably by position.

Every function takes a `fuel` argument that bounds its recursion. The fuel
given at the top is a multiple of the number of tokens, more than any parse
can use, since each loop round and each level of nesting consumes a token.
-/

namespace ClassCompiler.Syntax

/-- The parser's state: the significant tokens, the end token, the position of
    the next token, the span of the last token consumed, the errors recorded
    after recovery and the aliases of the imports read so far. -/
structure Cursor where
  toks : Array Token
  eof : Token
  pos : Nat
  prev : Span
  errors : Array ParseError
  aliases : AliasMap

/-- Parsing steps: they may fail with one error, keeping the tokens consumed. -/
abbrev Parse := ExceptT ParseError (StateM Cursor)

namespace Parse

/-- The token `n` places ahead; the end token past the last one. -/
def peekAt (n : Nat) : Parse Token := do
  let c ← get
  return c.toks.getD (c.pos + n) c.eof

def peek : Parse Token := peekAt 0

/-- Consume the next token. The end token is never consumed. -/
def advance : Parse Token := do
  let c ← get
  match c.toks[c.pos]? with
  | some t =>
    set { c with pos := c.pos + 1, prev := t.span }
    return t
  | none => return c.eof

def skip : Parse Unit := do
  let _ ← advance

def check (k : TokenKind) : Parse Bool := do
  return (← peek).kind == k

def atEnd : Parse Bool := check .eof

/-- Consume the next token when it is of class `k`. -/
def eat (k : TokenKind) : Parse (Option Token) := do
  if ← check k then return some (← advance) else return none

/-- Record an error and carry on. -/
def record (e : ParseError) : Parse Unit :=
  modify fun c => { c with errors := c.errors.push e }

/-- Run a step, turning its failure into a value. -/
def attempt {α : Type} (p : Parse α) : Parse (Except ParseError α) :=
  tryCatch (Except.ok <$> p) (fun e => pure (Except.error e))

/-- How a token is named in "found …" messages. -/
def describe (t : Token) : String :=
  match t.kind with
  | .ident => "identifier '" ++ t.lexeme ++ "'"
  | .eof => "end of file"
  | k => if k.isLiteral && !t.lexeme.isEmpty then k.description ++ " " ++ t.lexeme else k.description

def unexpectedEof (span : Span) : ParseError := ⟨.unexpectedEof, span, "unexpected end of file"⟩

/-- The failure of running out of fuel, which a parse with the fuel it is given
    never reaches. -/
def exhausted {α : Type} : Parse α := do
  throw (unexpectedEof (← get).eof.span)

/-- Consume a token of class `k` or fail. -/
def expect (k : TokenKind) : Parse Token := do
  let t ← peek
  if t.kind == k then advance
  else if t.kind == .eof then throw (unexpectedEof t.span)
  else throw ⟨.expectedToken, t.span, "expected " ++ k.description ++ ", found " ++ describe t⟩

/-- Consume a `;`; its absence is reported right after the last token. -/
def expectSemicolon : Parse Token := do
  match ← eat .semicolon with
  | some t => return t
  | none =>
    let prev := (← get).prev
    let found := describe (← peek)
    throw ⟨.missingSemicolon, Span.point prev.line (prev.col + prev.len), "expected ';', found " ++ found⟩

def expectIdent : Parse Ident := do
  let t ← peek
  if t.kind == .ident then
    skip
    return ⟨t.lexeme, t.span⟩
  else if t.kind == .eof then throw (unexpectedEof t.span)
  else throw ⟨.expectedIdentifier, t.span, "expected identifier, found " ++ describe t⟩

/-- Skip to a statement boundary: past a `;`, or up to `}`, the end, or a token
    that starts a statement. -/
def synchronize : Nat → Parse Unit
  | 0 => pure ()
  | fuel + 1 => do
    match (← peek).kind with
    | .eof | .rBrace | .kwLet | .kwReturn | .kwIf | .kwWhile => pure ()
    | .semicolon => skip
    | _ => skip; synchronize fuel

/-- Skip to the next declaration keyword or the end. -/
def synchronizeItem : Nat → Parse Unit
  | 0 => pure ()
  | fuel + 1 => do
    match (← peek).kind with
    | .eof | .kwImport | .kwModule | .kwStruct | .kwTrait | .kwImpl | .kwFn => pure ()
    | _ => skip; synchronizeItem fuel

/-! ## Names and types -/

def pathRest : Nat → Array Ident → Span → Parse Path
  | 0, _, _ => exhausted
  | fuel + 1, segs, span => do
    if (← check .dot) && (← peekAt 1).kind == .ident then
      skip
      let seg ← expectIdent
      pathRest fuel (segs.push seg) (span.merge seg.span)
    else return ⟨segs.toList, span⟩

/-- `a.b.C`: identifiers joined by dots. -/
def path (fuel : Nat) : Parse Path := do
  let first ← expectIdent
  pathRest fuel #[first] first.span

def dimensions : Nat → Nat → Span → Parse (Nat × Span)
  | 0, _, _ => exhausted
  | fuel + 1, dims, span => do
    if (← check .lBracket) && (← peekAt 1).kind == .rBracket then
      skip
      let close ← advance
      dimensions fuel (dims + 1) (span.merge close.span)
    else return (dims, span)

/-- A path followed by any number of `[]`. -/
def type (fuel : Nat) : Parse TypeExpr := do
  let t ← peek
  if t.kind != .ident then
    throw ⟨.expectedType, t.span, "expected type, found " ++ describe t⟩
  let p ← path fuel
  let (dims, span) ← dimensions fuel 0 p.span
  return ⟨p, dims, span⟩

/-! ## Expressions -/

/-- The binary operator a token spells. -/
def binOp? : TokenKind → Option BinOp
  | .pipePipe => some .or | .ampAmp => some .and | .eqEq => some .eq | .bangEq => some .ne
  | .less => some .lt | .lessEq => some .le | .greater => some .gt | .greaterEq => some .ge
  | .plus => some .add | .minus => some .sub | .star => some .mul | .slash => some .div
  | .percent => some .rem
  | _ => none

def isNumber (k : TokenKind) : Bool :=
  k == .intLit || k == .longLit || k == .floatLit || k == .doubleLit

/-- The binding power of the postfix forms `.`, `[` and `(`. -/
def postfixPower : Nat := 27

/-- The binding power with which a prefix operator takes its operand. -/
def prefixPower : Nat := 25

/-- The literal of a number token, or an `invalid literal` error at the token. -/
def numberLiteral (t : Token) (negate : Bool) : Parse Literal :=
  match numberValue t.kind t.lexeme negate with
  | some l => pure l
  | none => throw ⟨.invalidLiteral, t.span,
      numberWord t.kind ++ " literal '" ++ t.lexeme ++ "' out of range"⟩

mutual

/-- An expression whose operators bind at least as strongly as `minBp`. -/
def expr (fuel minBp : Nat) : Parse Expr :=
  match fuel with
  | 0 => exhausted
  | fuel + 1 => do
    let lhs ← operand fuel
    operators fuel minBp lhs

/-- Extend `lhs` with postfix forms, assignments and binary operators. -/
def operators (fuel minBp : Nat) (lhs : Expr) : Parse Expr :=
  match fuel with
  | 0 => exhausted
  | fuel + 1 => do
    let k := (← peek).kind
    if k == .dot || k == .lBracket || k == .lParen then
      if postfixPower < minBp then return lhs
      let lhs ←
        if k == .dot then member fuel lhs
        else if k == .lBracket then index fuel lhs
        else call fuel lhs
      operators fuel minBp lhs
    else if k == .assign then
      if 2 < minBp then return lhs
      skip
      let value ← expr fuel 1
      operators fuel minBp (.assign lhs value (lhs.span.merge value.span))
    else match binOp? k with
      | some op =>
        if op.power.1 < minBp then return lhs
        skip
        let right ← expr fuel op.power.2
        operators fuel minBp (.binary op lhs right (lhs.span.merge right.span))
      | none => return lhs

/-- A literal, a name, a parenthesized expression, `new`, an array, a cast or
    a prefix operator with its operand. -/
def operand (fuel : Nat) : Parse Expr :=
  match fuel with
  | 0 => exhausted
  | fuel + 1 => do
    let t ← peek
    match t.kind with
    | .intLit | .longLit | .floatLit | .doubleLit =>
      skip
      return .lit (← numberLiteral t false) t.span
    | .stringLit =>
      skip
      return .lit (.string (decodeString t.lexeme)) t.span
    | .kwTrue => skip; return .lit (.bool true) t.span
    | .kwFalse => skip; return .lit (.bool false) t.span
    | .kwNull => skip; return .lit .null t.span
    | .ident => skip; return .ident ⟨t.lexeme, t.span⟩
    | .lParen =>
      let open_ ← advance
      let e ← expr fuel 0
      let close ← expect .rParen
      return .paren e (open_.span.merge close.span)
    | .kwNew =>
      let start ← expect .kwNew
      let ty ← type fuel
      let (args, close) ← arguments fuel .lParen .rParen
      return .newObj ty args (start.span.merge close)
    | .lBracket =>
      let start ← expect .lBracket
      let ty ← type fuel
      let _ ← expect .rBracket
      let (elems, close) ← arguments fuel .lBracket .rBracket
      return .array ty elems (start.span.merge close)
    | .kwCast =>
      let start ← expect .kwCast
      let _ ← expect .less
      let target ← type fuel
      let _ ← expect .greater
      let _ ← expect .lParen
      let e ← expr fuel 0
      let close ← expect .rParen
      return .cast target e (start.span.merge close.span)
    | .minus | .bang =>
      if t.kind == .minus && isNumber (← peekAt 1).kind then
        let minus ← advance
        let number ← advance
        return .lit (← numberLiteral number true) (minus.span.merge number.span)
      let op : UnOp := if t.kind == .minus then .neg else .not
      skip
      let e ← expr fuel prefixPower
      return .unary op e (t.span.merge e.span)
    | .eof => throw (unexpectedEof t.span)
    | _ => throw ⟨.expectedExpression, t.span, "expected expression, found " ++ describe t⟩

/-- `.name` or `.name(args)` after `obj`. -/
def member (fuel : Nat) (obj : Expr) : Parse Expr :=
  match fuel with
  | 0 => exhausted
  | fuel + 1 => do
    let _ ← expect .dot
    let name ← expectIdent
    if ← check .lParen then
      let (args, close) ← arguments fuel .lParen .rParen
      return .method obj name args (obj.span.merge close)
    else return .field obj name (obj.span.merge name.span)

/-- `[i]` after `obj`. -/
def index (fuel : Nat) (obj : Expr) : Parse Expr :=
  match fuel with
  | 0 => exhausted
  | fuel + 1 => do
    let _ ← expect .lBracket
    let i ← expr fuel 0
    let close ← expect .rBracket
    return .index obj i (obj.span.merge close.span)

/-- `(args)` after a callee, which must be a bare name. -/
def call (fuel : Nat) (callee : Expr) : Parse Expr :=
  match fuel with
  | 0 => exhausted
  | fuel + 1 => do
    match callee with
    | .ident name =>
      let (args, close) ← arguments fuel .lParen .rParen
      return .call name args (name.span.merge close)
    | _ =>
      let t ← peek
      throw ⟨.unexpectedToken, t.span, "only named functions and methods can be called"⟩

/-- Expressions separated by commas between `openK` and `closeK`, with the
    span of the closing token. -/
def arguments (fuel : Nat) (openK closeK : TokenKind) : Parse (List Expr × Span) :=
  match fuel with
  | 0 => exhausted
  | fuel + 1 => do
    let _ ← expect openK
    let args ← if ← check closeK then pure #[] else argumentList fuel #[]
    let close ← expect closeK
    return (args.toList, close.span)

def argumentList (fuel : Nat) (acc : Array Expr) : Parse (Array Expr) :=
  match fuel with
  | 0 => exhausted
  | fuel + 1 => do
    let e ← expr fuel 0
    if (← eat .comma).isSome then argumentList fuel (acc.push e) else return acc.push e

end

/-! ## Statements -/

/-- `e;` -/
def exprStmt (fuel : Nat) : Parse Stmt := do
  let e ← expr fuel 0
  let stop ← expectSemicolon
  return .expr e (e.span.merge stop.span)

/-- `let x (: T)? = e;` -/
def letStmt (fuel : Nat) : Parse Stmt := do
  let start ← expect .kwLet
  let name ← expectIdent
  let ty ← if (← eat .colon).isSome then some <$> type fuel else pure none
  let _ ← expect .assign
  let init ← expr fuel 0
  let stop ← expectSemicolon
  return .letDecl name ty init (start.span.merge stop.span)

/-- `return e?;` -/
def returnStmt (fuel : Nat) : Parse Stmt := do
  let start ← expect .kwReturn
  let value ← if ← check .semicolon then pure none else some <$> expr fuel 0
  let stop ← expectSemicolon
  return .ret value (start.span.merge stop.span)

mutual

def stmt (fuel : Nat) : Parse Stmt :=
  match fuel with
  | 0 => exhausted
  | fuel + 1 => do
    let t ← peek
    match t.kind with
    | .kwLet => letStmt fuel
    | .kwReturn => returnStmt fuel
    | .kwIf => ifStmt fuel
    | .kwWhile => whileStmt fuel
    | .lBrace => return .block (← block fuel)
    | .kwElse | .kwFn | .kwStruct | .kwTrait | .kwImpl | .kwModule | .kwImport =>
      throw ⟨.expectedStatement, t.span, "expected statement, found " ++ describe t⟩
    | _ => exprStmt fuel

/-- `{ stmts }`, recovering from errors in its statements. -/
def block (fuel : Nat) : Parse Block :=
  match fuel with
  | 0 => exhausted
  | fuel + 1 => do
    let t ← peek
    if t.kind != .lBrace then
      throw ⟨.expectedBlock, t.span, "expected '\x7b', found " ++ describe t⟩
    let start ← advance
    let stmts ← blockBody fuel #[]
    let stop ← expect .rBrace
    return .mk stmts.toList (start.span.merge stop.span)

def blockBody (fuel : Nat) (acc : Array Stmt) : Parse (Array Stmt) :=
  match fuel with
  | 0 => exhausted
  | fuel + 1 => do
    if (← check .rBrace) || (← atEnd) then return acc
    let before := (← peek).span
    match ← attempt (stmt fuel) with
    | .ok s => blockBody fuel (acc.push s)
    | .error e =>
      record e
      synchronize fuel
      if (← peek).span == before && !(← check .rBrace) then skip
      blockBody fuel acc

/-- `if (c) { … }` with an optional `else` block or `else if`. -/
def ifStmt (fuel : Nat) : Parse Stmt :=
  match fuel with
  | 0 => exhausted
  | fuel + 1 => do
    let start ← expect .kwIf
    let _ ← expect .lParen
    let cond ← expr fuel 0
    let _ ← expect .rParen
    let thenB ← block fuel
    let elseS ←
      if (← eat .kwElse).isSome then
        if ← check .kwIf then some <$> ifStmt fuel
        else (some ∘ Stmt.block) <$> block fuel
      else pure none
    let stop := match elseS with
      | some s => s.span
      | none => thenB.span
    return .ifElse cond thenB elseS (start.span.merge stop)

/-- `while (c) { … }` -/
def whileStmt (fuel : Nat) : Parse Stmt :=
  match fuel with
  | 0 => exhausted
  | fuel + 1 => do
    let start ← expect .kwWhile
    let _ ← expect .lParen
    let cond ← expr fuel 0
    let _ ← expect .rParen
    let body ← block fuel
    return .while cond body (start.span.merge body.span)

end

/-! ## Declarations -/

def paramList : Nat → Array Param → Parse (Array Param)
  | 0, _ => exhausted
  | fuel + 1, acc => do
    let name ← expectIdent
    let _ ← expect .colon
    let ty ← type fuel
    let acc := acc.push ⟨name, ty, name.span.merge ty.span⟩
    if (← eat .comma).isSome then paramList fuel acc else return acc

/-- `fn name(params)` with an optional `: T`. -/
def signature (fuel : Nat) : Parse Sig := do
  let start ← expect .kwFn
  let name ← expectIdent
  let _ ← expect .lParen
  let params ← if ← check .rParen then pure #[] else paramList fuel #[]
  let close ← expect .rParen
  let ret ← if (← eat .colon).isSome then some <$> type fuel else pure none
  let stop := match ret with
    | some t => t.span
    | none => close.span
  return ⟨name, params.toList, ret, start.span.merge stop⟩

def function (fuel : Nat) : Parse FnDecl := do
  let sig ← signature fuel
  let body ← block fuel
  return ⟨sig, body, sig.span.merge body.span⟩

/-- `name: T;` -/
def field (fuel : Nat) : Parse Field := do
  let name ← expectIdent
  let _ ← expect .colon
  let ty ← type fuel
  let stop ← expectSemicolon
  return ⟨name, ty, name.span.merge stop.span⟩

/-- Repeat `p` until a `}` or the end. -/
def untilClose {α : Type} (p : Parse α) : Nat → Array α → Parse (Array α)
  | 0, _ => exhausted
  | fuel + 1, acc => do
    if (← check .rBrace) || (← atEnd) then return acc
    untilClose p fuel (acc.push (← p))

/-- `import a.b.C (as D)?;`, recording the alias. -/
def importDecl (fuel : Nat) : Parse Item := do
  let start ← expect .kwImport
  let p ← path fuel
  let asName ← if (← eat .kwAs).isSome then some <$> expectIdent else pure none
  let stop ← expectSemicolon
  let local_ := (asName.getD p.last).name
  modify fun c => { c with aliases := (c.aliases.insert local_ p.dotted).2 }
  return .importDecl p asName (start.span.merge stop.span)

/-- The sections of a module: `struct { fields }` and `impl { functions }`. -/
def moduleBody : Nat → Array Field → Array FnDecl → Parse (Array Field × Array FnDecl)
  | 0, _, _ => exhausted
  | fuel + 1, fields, methods => do
    if (← check .rBrace) || (← atEnd) then return (fields, methods)
    let t ← peek
    match t.kind with
    | .kwStruct =>
      skip
      let _ ← expect .lBrace
      let fields ← untilClose (field fuel) fuel fields
      let _ ← expect .rBrace
      moduleBody fuel fields methods
    | .kwImpl =>
      skip
      let _ ← expect .lBrace
      let methods ← untilClose (function fuel) fuel methods
      let _ ← expect .rBrace
      moduleBody fuel fields methods
    | _ => throw ⟨.expectedToken, t.span, "expected 'struct' or 'impl', found " ++ describe t⟩

def moduleDecl (fuel : Nat) : Parse Item := do
  let start ← expect .kwModule
  let name ← path fuel
  let _ ← expect .lBrace
  let (fields, methods) ← moduleBody fuel #[] #[]
  let stop ← expect .rBrace
  return .moduleDecl name fields.toList methods.toList (start.span.merge stop.span)

def structDecl (fuel : Nat) : Parse Item := do
  let start ← expect .kwStruct
  let name ← path fuel
  let _ ← expect .lBrace
  let fields ← untilClose (field fuel) fuel #[]
  let stop ← expect .rBrace
  return .structDecl name fields.toList (start.span.merge stop.span)

def traitDecl (fuel : Nat) : Parse Item := do
  let start ← expect .kwTrait
  let name ← path fuel
  let _ ← expect .lBrace
  let sigs ← untilClose (do let s ← signature fuel; let _ ← expectSemicolon; pure s) fuel #[]
  let stop ← expect .rBrace
  return .traitDecl name sigs.toList (start.span.merge stop.span)

def implDecl (fuel : Nat) : Parse Item := do
  let start ← expect .kwImpl
  let traitTy ← type fuel
  let _ ← expect .kwFor
  let target ← type fuel
  let _ ← expect .lBrace
  let methods ← untilClose (function fuel) fuel #[]
  let stop ← expect .rBrace
  return .implDecl traitTy target methods.toList (start.span.merge stop.span)

def item (fuel : Nat) : Parse Item := do
  let t ← peek
  match t.kind with
  | .kwImport => importDecl fuel
  | .kwModule => moduleDecl fuel
  | .kwStruct => structDecl fuel
  | .kwTrait => traitDecl fuel
  | .kwImpl => implDecl fuel
  | .kwFn => return .fnDecl (← function fuel)
  | _ => throw ⟨.expectedDeclaration, t.span, "expected declaration, found " ++ describe t⟩

/-- Declarations up to the end, recovering after each failed one. -/
def items : Nat → Array Item → Parse (Array Item)
  | 0, acc => return acc
  | fuel + 1, acc => do
    if ← atEnd then return acc
    let before := (← peek).span
    match ← attempt (item fuel) with
    | .ok i => items fuel (acc.push i)
    | .error e =>
      record e
      if (← peek).span == before then skip
      synchronizeItem fuel
      items fuel acc

/-- The whole file; its span runs from the first token to the last consumed. -/
def sourceFile (fuel : Nat) : Parse SourceFile := do
  let start := (← peek).span
  let is ← items fuel #[]
  let c ← get
  return ⟨is.toList, c.aliases, (Span.mk start.line start.col 0).merge c.prev⟩

end Parse

/-- Whether `a` is reported no later than `b`: by line, then column. -/
def ParseError.before (a b : ParseError) : Bool :=
  a.span.line < b.span.line || (a.span.line == b.span.line && a.span.col ≤ b.span.col)

/-- The cursor at the start of a token list: its significant tokens, with its
    last token as the end. -/
def Cursor.ofTokens (toks : Array Token) : Cursor :=
  let significant := toks.filter fun t => t.kind != .error && t.kind != .eof
  let eof := toks.back?.getD ⟨.eof, "", Span.point 1 1⟩
  ⟨significant, eof, 0, Span.point 1 1, #[], {}⟩

/-- Parse the tokens of a source text, scanned with the errors `lexErrors`,
    with `fuel`: its tree, or every error found (lexical errors first, then
    sorted stably by position). -/
def parseTokens (fuel : Nat) (toks : Array Token) (lexErrors : Array LexError) :
    Except (List ParseError) SourceFile :=
  let (result, c) := (Parse.sourceFile fuel).run.run (Cursor.ofTokens toks)
  let errors := lexErrors.toList.map ParseError.ofLex ++ c.errors.toList
  let errors := match result with
    | .ok _ => errors
    | .error e => errors ++ [e]
  match result, errors with
  | .ok file, [] => .ok file
  | _, es => .error (es.mergeSort ParseError.before)

/-- Parse a source text, with eight units of fuel per token and some to spare. -/
def parse (src : String) : Except (List ParseError) SourceFile :=
  let (toks, lexErrors) := tokenize src
  parseTokens (8 * (toks.size + 4)) toks lexErrors

end ClassCompiler.Syntax
