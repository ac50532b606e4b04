import ClassCompiler.Text.Span

/-!
# Tokens

The words of the language: literals, identifiers, keywords, operators and
delimiters, each with the exact source text it was read from and its span, and
the lexical errors the scanner records. An `error` token stands where the
scanner could not read a token; its text is empty.
-/

namespace ClassCompiler

/-- The class of a token. -/
inductive TokenKind where
  | intLit | longLit | floatLit | doubleLit | stringLit | ident
  | kwImport | kwAs | kwModule | kwStruct | kwTrait | kwImpl | kwFor | kwFn | kwLet
  | kwReturn | kwIf | kwElse | kwWhile | kwNew | kwCast | kwTrue | kwFalse | kwNull
  | plus | minus | star | slash | percent | eqEq | bangEq | less | lessEq | greater
  | greaterEq | ampAmp | pipePipe | bang | assign
  | lParen | rParen | lBracket | rBracket | lBrace | rBrace | semicolon | comma | colon | dot
  | eof | error
  deriving DecidableEq, Repr, Inhabited

namespace TokenKind

/-- The name of the class of a token. -/
def name : TokenKind → String
  | .intLit => "IntLiteral" | .longLit => "LongLiteral" | .floatLit => "FloatLiteral"
  | .doubleLit => "DoubleLiteral" | .stringLit => "StringLiteral" | .ident => "Identifier"
  | .kwImport => "Import" | .kwAs => "As" | .kwModule => "Module" | .kwStruct => "Struct"
  | .kwTrait => "Trait" | .kwImpl => "Impl" | .kwFor => "For" | .kwFn => "Fn" | .kwLet => "Let"
  | .kwReturn => "Return" | .kwIf => "If" | .kwElse => "Else" | .kwWhile => "While"
  | .kwNew => "New" | .kwCast => "Cast" | .kwTrue => "True" | .kwFalse => "False"
  | .kwNull => "Null" | .plus => "Plus" | .minus => "Minus" | .star => "Star"
  | .slash => "Slash" | .percent => "Percent" | .eqEq => "EqualEqual" | .bangEq => "BangEqual"
  | .less => "Less" | .lessEq => "LessEqual" | .greater => "Greater"
  | .greaterEq => "GreaterEqual" | .ampAmp => "AmpAmp" | .pipePipe => "PipePipe"
  | .bang => "Bang" | .assign => "Equal" | .lParen => "LeftParen" | .rParen => "RightParen"
  | .lBracket => "LeftBracket" | .rBracket => "RightBracket" | .lBrace => "LeftBrace"
  | .rBrace => "RightBrace" | .semicolon => "Semicolon" | .comma => "Comma"
  | .colon => "Colon" | .dot => "Dot" | .eof => "Eof" | .error => "Error"

/-- How messages describe a token of the class. -/
def description : TokenKind → String
  | .intLit => "integer literal" | .longLit => "long literal" | .floatLit => "float literal"
  | .doubleLit => "double literal" | .stringLit => "string literal" | .ident => "identifier"
  | .kwImport => "'import'" | .kwAs => "'as'" | .kwModule => "'module'"
  | .kwStruct => "'struct'" | .kwTrait => "'trait'" | .kwImpl => "'impl'" | .kwFor => "'for'"
  | .kwFn => "'fn'" | .kwLet => "'let'" | .kwReturn => "'return'" | .kwIf => "'if'"
  | .kwElse => "'else'" | .kwWhile => "'while'" | .kwNew => "'new'" | .kwCast => "'cast'"
  | .kwTrue => "'true'" | .kwFalse => "'false'" | .kwNull => "'null'" | .plus => "'+'"
  | .minus => "'-'" | .star => "'*'" | .slash => "'/'" | .percent => "'%'"
  | .eqEq => "'=='" | .bangEq => "'!='" | .less => "'<'" | .lessEq => "'<='"
  | .greater => "'>'" | .greaterEq => "'>='" | .ampAmp => "'&&'" | .pipePipe => "'||'"
  | .bang => "'!'" | .assign => "'='" | .lParen => "'('" | .rParen => "')'"
  | .lBracket => "'['" | .rBracket => "']'" | .lBrace => "'\x7b'" | .rBrace => "'\x7d'"
  | .semicolon => "';'" | .comma => "','" | .colon => "':'" | .dot => "'.'"
  | .eof => "end of file" | .error => "invalid token"

/-- Literals, including `true`, `false` and `null`. -/
def isLiteral : TokenKind → Bool
  | .intLit | .longLit | .floatLit | .doubleLit | .stringLit | .kwTrue | .kwFalse | .kwNull => true
  | _ => false

/-- The keyword spelled by an identifier. -/
def keyword? : String → Option TokenKind
  | "import" => some .kwImport | "as" => some .kwAs | "module" => some .kwModule
  | "struct" => some .kwStruct | "trait" => some .kwTrait | "impl" => some .kwImpl
  | "for" => some .kwFor | "fn" => some .kwFn | "let" => some .kwLet
  | "return" => some .kwReturn | "if" => some .kwIf | "else" => some .kwElse
  | "while" => some .kwWhile | "new" => some .kwNew | "cast" => some .kwCast
  | "true" => some .kwTrue | "false" => some .kwFalse | "null" => some .kwNull
  | _ => none

end TokenKind

/-- A token: its class, its source text and where it stands. -/
structure Token where
  kind : TokenKind
  lexeme : String
  span : Span
  deriving Repr, Inhabited

/-- Why a number could not be read. -/
inductive NumberFault where
  | missingExponent
  | invalidSuffix
  deriving DecidableEq, Repr

def NumberFault.text : NumberFault → String
  | .missingExponent => "missing exponent digits"
  | .invalidSuffix => "invalid suffix"

/-- A fault the scanner records. -/
inductive LexError where
  | unexpectedChar (c : Char) (span : Span)
  | unterminatedString (span : Span)
  | unterminatedComment (span : Span)
  | invalidEscape (c : Char) (span : Span)
  | invalidNumber (span : Span) (fault : NumberFault)
  deriving Repr

namespace LexError

def span : LexError → Span
  | .unexpectedChar _ s | .unterminatedString s | .unterminatedComment s
  | .invalidEscape _ s | .invalidNumber s _ => s

def message : LexError → String
  | .unexpectedChar c s => "unexpected character '" ++ c.toString ++ "' at " ++ s.position
  | .unterminatedString s => "unterminated string at " ++ s.position
  | .unterminatedComment s => "unterminated comment at " ++ s.position
  | .invalidEscape c s => "invalid escape sequence '\\" ++ c.toString ++ "' at " ++ s.position
  | .invalidNumber s f => "invalid number at " ++ s.position ++ ": " ++ f.text

/-- The name of the kind of fault. -/
def kindName : LexError → String
  | .unexpectedChar .. => "UnexpectedChar"
  | .unterminatedString _ => "UnterminatedString"
  | .unterminatedComment _ => "UnterminatedComment"
  | .invalidEscape .. => "InvalidEscape"
  | .invalidNumber .. => "InvalidNumber"

end LexError

end ClassCompiler
