import ClassCompiler.Source.Token

/-!
# Parse errors

What the parser reports: the kind of fault, where, and a message. Lexical
errors become parse errors of kind `lexical`. A report can be rendered with its
source line and a marker under the span.
-/

namespace ClassCompiler

/-- The kinds of parse fault. -/
inductive ParseErrorKind where
  | expectedToken
  | unexpectedToken
  | unexpectedEof
  | expectedExpression
  | expectedType
  | expectedStatement
  | expectedBlock
  | expectedDeclaration
  | expectedIdentifier
  | missingSemicolon
  | invalidLiteral
  | lexical
  deriving DecidableEq, Repr, Inhabited

/-- The words of a kind, as reports write it. -/
def ParseErrorKind.text : ParseErrorKind → String
  | .expectedToken => "expected token"
  | .unexpectedToken => "unexpected token"
  | .unexpectedEof => "unexpected end of file"
  | .expectedExpression => "expected expression"
  | .expectedType => "expected type"
  | .expectedStatement => "expected statement"
  | .expectedBlock => "expected block"
  | .expectedDeclaration => "expected declaration"
  | .expectedIdentifier => "expected identifier"
  | .missingSemicolon => "missing semicolon"
  | .invalidLiteral => "invalid literal"
  | .lexical => "lexical error"

/-- A parse fault. -/
structure ParseError where
  kind : ParseErrorKind
  span : Span
  message : String
  deriving Repr, Inhabited

namespace ParseError

/-- `kind at line:col: message`. -/
def text (e : ParseError) : String :=
  e.kind.text ++ " at " ++ e.span.position ++ ": " ++ e.message

def ofLex (e : LexError) : ParseError := ⟨.lexical, e.span, e.message⟩

/-- The lines of a text: split at line feeds, a carriage return before a line
    feed dropped, and no empty last line after a final line feed. -/
def sourceLines (src : String) : List String :=
  let pieces := src.splitOn "\n"
  let n := pieces.length
  let trimmed := pieces.zipIdx.map fun (p, i) =>
    if i + 1 < n && p.endsWith "\r" then String.ofList p.toList.dropLast else p
  match trimmed.getLast? with
  | some "" => trimmed.dropLast
  | _ => trimmed

/-- A number right-aligned in a field of three characters. -/
def padLeft3 (n : Nat) : String :=
  let s := toString n
  String.ofList (List.replicate (3 - s.length) ' ') ++ s

/-- The report with the source line it points into and a marker: `^` under the
    start, `~` under the rest of the span. -/
def render (e : ParseError) (src : String) : String :=
  let line := e.span.line
  let col := max e.span.col 1
  let head := "Error at " ++ toString line ++ ":" ++ toString col ++ ": " ++ e.kind.text ++ "\n"
  let msg := if e.message.isEmpty then "" else "  " ++ e.message ++ "\n"
  let quote := match line with
    | 0 => ""
    | l + 1 =>
      match (sourceLines src)[l]? with
      | none => ""
      | some text =>
        let marker := if e.span.len ≤ 1 then "^" else "^" ++ String.ofList (List.replicate (e.span.len - 1) '~')
        "  |\n" ++ padLeft3 line ++ " | " ++ text ++ "\n" ++
          "  | " ++ String.ofList (List.replicate (col - 1) ' ') ++ marker ++ "\n"
  head ++ msg ++ quote

end ParseError

/-- All reports, one per line. -/
def ParseError.listText (es : List ParseError) : String :=
  "\n".intercalate (es.map ParseError.text)

end ClassCompiler
