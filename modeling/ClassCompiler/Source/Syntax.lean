import ClassCompiler.Text.Span
import ClassCompiler.Source.Alias

/-!
# Syntax trees

The parsed form of a source file: declarations (imports, modules, structs,
traits, impls, functions), statements and expressions, each with its span.
Literals carry their values; names are kept as written, with dots.
-/

namespace ClassCompiler.Syntax

/-- A name as written, with its span. -/
structure Ident where
  name : String
  span : Span
  deriving Repr, Inhabited

/-- A dotted name `a.b.C`. -/
structure Path where
  segs : List Ident
  span : Span
  deriving Repr, Inhabited

namespace Path

/-- The name with dots: `a.b.C`. -/
def dotted (p : Path) : String := ".".intercalate (p.segs.map (·.name))

/-- The last segment. -/
def last (p : Path) : Ident := p.segs.getLast?.getD default

end Path

/-- A type as written: a path and a number of `[]`. -/
structure TypeExpr where
  path : Path
  dims : Nat
  span : Span
  deriving Repr, Inhabited

/-- The type as written: `a.b.C[][]`. -/
def TypeExpr.text (t : TypeExpr) : String :=
  t.path.dotted ++ String.join (List.replicate t.dims "[]")

/-- The binary operators. -/
inductive BinOp where
  | or | and | eq | ne | lt | le | gt | ge | add | sub | mul | div | rem
  deriving DecidableEq, Repr, Inhabited

namespace BinOp

/-- The operator as written. -/
def text : BinOp → String
  | .or => "||" | .and => "&&" | .eq => "==" | .ne => "!=" | .lt => "<" | .le => "<="
  | .gt => ">" | .ge => ">=" | .add => "+" | .sub => "-" | .mul => "*" | .div => "/"
  | .rem => "%"

/-- How strongly the operator binds on its left and on its right. -/
def power : BinOp → Nat × Nat
  | .or => (3, 4)
  | .and => (5, 6)
  | .eq | .ne => (13, 14)
  | .lt | .le | .gt | .ge => (15, 16)
  | .add | .sub => (19, 20)
  | .mul | .div | .rem => (21, 22)

end BinOp

/-- The prefix operators: negation and logical not. -/
inductive UnOp where
  | neg | not
  deriving DecidableEq, Repr, Inhabited

def UnOp.text : UnOp → String
  | .neg => "-"
  | .not => "!"

/-- A literal's value. -/
inductive Literal where
  | int (v : Int32)
  | long (v : Int64)
  | float (bits : UInt32)
  | double (bits : UInt64)
  | bool (b : Bool)
  | string (s : String)
  | null
  deriving DecidableEq, Repr, Inhabited

/-- An expression. -/
inductive Expr where
  | lit (l : Literal) (span : Span)
  | ident (id : Ident)
  | binary (op : BinOp) (l r : Expr) (span : Span)
  | unary (op : UnOp) (e : Expr) (span : Span)
  | assign (target value : Expr) (span : Span)
  /-- A call of a function by its bare name. -/
  | call (callee : Ident) (args : List Expr) (span : Span)
  | field (obj : Expr) (name : Ident) (span : Span)
  | method (obj : Expr) (name : Ident) (args : List Expr) (span : Span)
  | index (obj idx : Expr) (span : Span)
  | cast (target : TypeExpr) (e : Expr) (span : Span)
  | newObj (ty : TypeExpr) (args : List Expr) (span : Span)
  /-- `[T][e₀, e₁, …]`. -/
  | array (elem : TypeExpr) (elems : List Expr) (span : Span)
  | paren (e : Expr) (span : Span)
  deriving Repr, Inhabited

/-- The span of an expression. -/
def Expr.span : Expr → Span
  | .lit _ s | .binary _ _ _ s | .unary _ _ s | .assign _ _ s | .call _ _ s | .field _ _ s
  | .method _ _ _ s | .index _ _ s | .cast _ _ s | .newObj _ _ s | .array _ _ s | .paren _ s => s
  | .ident id => id.span

mutual

/-- A statement. -/
inductive Stmt where
  | expr (e : Expr) (span : Span)
  | letDecl (name : Ident) (ty : Option TypeExpr) (init : Expr) (span : Span)
  | ret (value : Option Expr) (span : Span)
  | block (b : Block)
  /-- `if (c) { … } else …`; an `else if` is an `if` in the else place. -/
  | ifElse (cond : Expr) (thenB : Block) (elseS : Option Stmt) (span : Span)
  | while (cond : Expr) (body : Block) (span : Span)

/-- Statements between braces. -/
inductive Block where
  | mk (stmts : List Stmt) (span : Span)

end

instance : Inhabited Block := ⟨.mk [] default⟩

def Block.stmts : Block → List Stmt
  | .mk s _ => s

def Block.span : Block → Span
  | .mk _ s => s

/-- The span of a statement. -/
def Stmt.span : Stmt → Span
  | .expr _ s | .letDecl _ _ _ s | .ret _ s | .ifElse _ _ _ s | .while _ _ s => s
  | .block b => b.span

/-- A field of a struct or module: `name: T;`. -/
structure Field where
  name : Ident
  ty : TypeExpr
  span : Span
  deriving Inhabited

/-- A parameter `name: T`. -/
structure Param where
  name : Ident
  ty : TypeExpr
  span : Span
  deriving Inhabited

/-- A function signature `fn name(params): T`; no return type means void. -/
structure Sig where
  name : Ident
  params : List Param
  ret : Option TypeExpr
  span : Span
  deriving Inhabited

/-- A function with its body. -/
structure FnDecl where
  sig : Sig
  body : Block
  span : Span
  deriving Inhabited

/-- A top-level declaration. -/
inductive Item where
  | importDecl (path : Path) (asName : Option Ident) (span : Span)
  | moduleDecl (name : Path) (fields : List Field) (methods : List FnDecl) (span : Span)
  | structDecl (name : Path) (fields : List Field) (span : Span)
  | traitDecl (name : Path) (methods : List Sig) (span : Span)
  | implDecl (traitTy target : TypeExpr) (methods : List FnDecl) (span : Span)
  | fnDecl (f : FnDecl)
  deriving Inhabited

/-- A parsed file: its declarations, the aliases its imports made, and its span. -/
structure SourceFile where
  items : List Item
  aliases : AliasMap
  span : Span
  deriving Inhabited

end ClassCompiler.Syntax
