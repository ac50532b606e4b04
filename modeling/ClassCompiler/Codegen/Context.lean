import ClassCompiler.Program.Resolve
import ClassCompiler.Codegen.Emitter
import ClassCompiler.Codegen.Scope

/-!
# The context of a method body

What compiling one body needs: the class table, the aliases of its file, the
options, the class declaring the method and its signature, and the holder of
the file's global functions. Inside an impl method, `this` and bare field
names refer to the wrapped struct, not the adapter.

Code generation runs in `Gen`: it reads the context, threads the emitter and
the local scope, and stops at the first error.
-/

namespace ClassCompiler

/-- How `cast<Trait>(e)` gets the adapter for its operand. -/
inductive TraitCastMode where
  /-- Always find the adapter class at run time from the operand's class. -/
  | reflective
  /-- Create the adapter directly when the operand's type is a struct known to
      implement the trait; otherwise as `reflective`. -/
  | static
  deriving DecidableEq, Repr, Inhabited

namespace TraitCastMode

def name : TraitCastMode → String
  | .reflective => "reflective"
  | .static => "static"

def ofName (s : String) : Except String TraitCastMode :=
  match s with
  | "reflective" => .ok .reflective
  | "static" => .ok .static
  | other => .error ("unknown trait cast mode '" ++ other ++ "'")

end TraitCastMode

/-- Options that change the generated code. -/
structure CompileOptions where
  traitCasts : TraitCastMode
  /-- Record a line marker before the code of each statement. -/
  lineNumbers : Bool
  deriving DecidableEq, Repr, Inhabited

/-- Reflective casts and line numbers. -/
def CompileOptions.standard : CompileOptions := ⟨.reflective, true⟩

/-- Everything known while compiling one method body. -/
structure MethodContext where
  table : ClassTable
  aliases : AliasMap
  options : CompileOptions
  owner : TypeDecl
  method : MethodSig
  holder : Option TypeDecl

namespace MethodContext

def isStatic (c : MethodContext) : Bool := c.method.isStatic

def adapter? (c : MethodContext) : Option AdapterInfo := c.owner.adapter

/-- The type of `this` as the source sees it. -/
def thisType (c : MethodContext) : Ty :=
  match c.adapter? with
  | some a => .obj a.structName
  | none => c.owner.asType

/-- The class whose fields bare names refer to. -/
def fieldScope (c : MethodContext) : TypeDecl :=
  ((c.adapter?).bind fun a => c.table.get? a.structName).getD c.owner

def resolver (c : MethodContext) : Resolver := ⟨c.aliases, c.table.contains⟩

/-- The innermost element type of an array type. -/
def baseType : Ty → Ty
  | .array e => baseType e
  | t => t

/-- Resolve a type written in a body; the class it names must exist. -/
def resolveKnown (c : MethodContext) (t : Syntax.TypeExpr) : Except CompilationError Ty :=
  let ty := c.resolver.resolve t
  match baseType ty with
  | .obj n => if c.table.contains n then .ok ty else .error (.unknownType t.path.dotted t.span)
  | _ => .ok ty

end MethodContext

/-- The emitter and the local scope of the body being compiled. -/
structure GenState where
  emitter : Emitter
  scope : Scope
  deriving Inhabited

/-- Code generation for one body. -/
abbrev Gen := ReaderT MethodContext (StateT GenState (Except CompilationError))

namespace Gen

def ctx : Gen MethodContext := read

def fail {α : Type} (e : CompilationError) : Gen α := throw e

def mismatch {α : Type} (m : Mismatch) (span : Span) : Gen α := throw (.typeMismatch m span)

def liftExcept {α : Type} (r : Except CompilationError α) : Gen α :=
  match r with
  | .ok a => pure a
  | .error e => throw e

/-- Change the emitter. -/
def out (f : Emitter → Emitter) : Gen Unit :=
  modify fun s => { s with emitter := f s.emitter }

def mark : Gen Nat := return (← get).emitter.mark

def newLabel : Gen Nat := do
  let s ← get
  let (l, e) := s.emitter.newLabel
  set { s with emitter := e }
  return l

/-- Change the scope by a step that may fail. -/
def withScope {α : Type} (f : Scope → Except CompilationError (α × Scope)) : Gen α := do
  let s ← get
  let (a, sc) ← liftExcept (f s.scope)
  set { s with scope := sc }
  return a

def resolveKnown (t : Syntax.TypeExpr) : Gen Ty := do
  liftExcept ((← read).resolveKnown t)

/-- The value of an expression is needed: it may be neither a type name nor
    void. -/
def requireValue (span : Span) (t : Ty) : Gen Ty :=
  match t with
  | .typeRef target => mismatch (.typeAsValue target) span
  | .void => mismatch .noValue span
  | t => pure t

/-- A `bool` is needed. -/
def expectBool (site : BoolSite) (t : Ty) (span : Span) : Gen Unit :=
  if t == .bool then pure () else mismatch (.notBool site t) span

end Gen

end ClassCompiler
