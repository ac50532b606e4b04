import ClassCompiler.Jvm.Ty
import ClassCompiler.Source.Syntax

/-!
# Registration and compilation errors

The faults found after parsing. Registration errors come from collecting the
declarations of all files (duplicates, bad impls); compilation errors from
checking and generating method bodies. Each carries the span it is reported
at and prints as `at line:col: …`.

* `Mismatch`: the ways an expression or statement can have the wrong type, each
  with its message;
* `CompilationError.kindName`, `RegistrationError.kindName`: the names of the
  kinds, as reports give them.
-/

namespace ClassCompiler

/-- A fault in the declarations of a file. Names are written with dots. -/
inductive RegistrationError where
  | duplicateType (name : String) (span : Span)
  | duplicateMethod (owner name descriptor : String) (span : Span)
  | duplicateField (owner name : String) (span : Span)
  | notATrait (name : String) (span : Span)
  | unknownImplTarget (name : String) (span : Span)
  | missingTraitMethod (traitName structName method descriptor : String) (span : Span)
  deriving DecidableEq, Repr

namespace RegistrationError

def span : RegistrationError → Span
  | .duplicateType _ s | .duplicateMethod _ _ _ s | .duplicateField _ _ s | .notATrait _ s
  | .unknownImplTarget _ s | .missingTraitMethod _ _ _ _ s => s

def kindName : RegistrationError → String
  | .duplicateType .. => "DuplicateType"
  | .duplicateMethod .. => "DuplicateMethod"
  | .duplicateField .. => "DuplicateField"
  | .notATrait .. => "NotATrait"
  | .unknownImplTarget .. => "UnknownImplTarget"
  | .missingTraitMethod .. => "MissingTraitMethod"

def message (e : RegistrationError) : String :=
  "at " ++ e.span.position ++ ": " ++
    match e with
    | .duplicateType n _ => "duplicate type '" ++ n ++ "'"
    | .duplicateMethod o n d _ => "duplicate method '" ++ o ++ "." ++ n ++ d ++ "'"
    | .duplicateField o n _ => "duplicate field '" ++ o ++ "." ++ n ++ "'"
    | .notATrait n _ => "'" ++ n ++ "' is not a trait"
    | .unknownImplTarget n _ => "impl target '" ++ n ++ "' is not a declared struct or module"
    | .missingTraitMethod t s m d _ =>
      "impl of '" ++ t ++ "' for '" ++ s ++ "' is missing method '" ++ m ++ d ++ "'"

end RegistrationError

/-- Where a `bool` is required. -/
inductive BoolSite where
  | ifCondition
  | whileCondition
  | notOperand
  | leftOperand (op : Syntax.BinOp)
  | rightOperand (op : Syntax.BinOp)
  deriving DecidableEq, Repr

def BoolSite.text : BoolSite → String
  | .ifCondition => "if condition"
  | .whileCondition => "while condition"
  | .notOperand => "operand of '!'"
  | .leftOperand op => "left operand of '" ++ op.text ++ "'"
  | .rightOperand op => "right operand of '" ++ op.text ++ "'"

/-- The ways a program can use a value of the wrong type. -/
inductive Mismatch where
  /-- A type name where a value is needed. -/
  | typeAsValue (target : Ty)
  /-- A void call or an assignment where a value is needed. -/
  | noValue
  | notBool (site : BoolSite) (actual : Ty)
  | cannotNegate (operand : Ty)
  | badOperands (op : Syntax.BinOp) (left right : Ty)
  | cannotAssign (value target : Ty)
  | fieldNotStatic (field : String) (owner : Ty)
  | noMembers (target : Ty)
  | notAnArray (t : Ty)
  | badIndex (t : Ty)
  | methodNotStatic (owner : Ty) (name : String)
  | voidElements
  | badElement (value element : Ty)
  | badReturn (value ret : Ty)
  | valueFromVoid
  | missingValue (ret : Ty)
  | badInitializer (name : String) (declared init : Ty)
  | nullInference (name : String)
  deriving DecidableEq, Repr

namespace Mismatch

private def q (t : Ty) : String := "'" ++ t.display ++ "'"

def text : Mismatch → String
  | .typeAsValue t => "type " ++ q t ++ " used as a value"
  | .noValue => "expression has no value"
  | .notBool site t => site.text ++ " must be bool, found " ++ q t
  | .cannotNegate t => "cannot negate " ++ q t
  | .badOperands op l r =>
    "operator '" ++ op.text ++ "' cannot be applied to " ++ q l ++ " and " ++ q r
  | .cannotAssign v t => "cannot assign " ++ q v ++ " to " ++ q t
  | .fieldNotStatic f o => "field '" ++ f ++ "' of " ++ q o ++ " is not static"
  | .noMembers t => q t ++ " has no members"
  | .notAnArray t => "cannot index non-array type " ++ q t
  | .badIndex t => "array index must be int, found " ++ q t
  | .methodNotStatic o n => "method '" ++ o.display ++ "." ++ n ++ "' is not static"
  | .voidElements => "array elements cannot be void"
  | .badElement v e => "array element of type " ++ q v ++ " where " ++ q e ++ " is expected"
  | .badReturn v r => "cannot return " ++ q v ++ " from a method returning " ++ q r
  | .valueFromVoid => "cannot return a value from a void method"
  | .missingValue r => "missing return value of type " ++ q r
  | .badInitializer n d i => "cannot initialize '" ++ n ++ ": " ++ d.display ++ "' with " ++ q i
  | .nullInference n => "cannot infer the type of '" ++ n ++ "' from null"

end Mismatch

/-- A fault in a method body. Type names are written with dots. -/
inductive CompilationError where
  | unresolvedName (name : String) (span : Span)
  | unknownType (name : String) (span : Span)
  | unknownField (field typeName : String) (span : Span)
  | noApplicableMethod (owner name args : String) (span : Span)
  | noApplicableConstructor (typeName args : String) (span : Span)
  | typeMismatch (m : Mismatch) (span : Span)
  | notAnLvalue (span : Span)
  | thisInStaticContext (span : Span)
  | missingReturn (method : String) (span : Span)
  | invalidCast (source target : String) (span : Span)
  | variableRedeclaration (name : String) (original span : Span)
  | invalidOperation (message : String) (span : Span)
  | tooManyLocals (span : Span)
  /-- A broken invariant of the compiler itself; it has no location. -/
  | internal (message : String)
  deriving DecidableEq, Repr

namespace CompilationError

/-- Where the error is reported; `internal` errors are at `0:0`. -/
def span : CompilationError → Span
  | .unresolvedName _ s | .unknownType _ s | .unknownField _ _ s | .noApplicableMethod _ _ _ s
  | .noApplicableConstructor _ _ s | .typeMismatch _ s | .notAnLvalue s | .thisInStaticContext s
  | .missingReturn _ s | .invalidCast _ _ s | .variableRedeclaration _ _ s
  | .invalidOperation _ s | .tooManyLocals s => s
  | .internal _ => ⟨0, 0, 0⟩

def kindName : CompilationError → String
  | .unresolvedName .. => "UnresolvedName"
  | .unknownType .. => "UnknownType"
  | .unknownField .. => "UnknownField"
  | .noApplicableMethod .. => "NoApplicableMethod"
  | .noApplicableConstructor .. => "NoApplicableConstructor"
  | .typeMismatch .. => "TypeMismatch"
  | .notAnLvalue .. => "NotAnLvalue"
  | .thisInStaticContext .. => "ThisInStaticContext"
  | .missingReturn .. => "MissingReturn"
  | .invalidCast .. => "InvalidCast"
  | .variableRedeclaration .. => "VariableRedeclaration"
  | .invalidOperation .. => "InvalidOperation"
  | .tooManyLocals .. => "TooManyLocals"
  | .internal .. => "Internal"

def message : CompilationError → String
  | .internal m => "internal error: " ++ m
  | e => "at " ++ e.span.position ++ ": " ++
    match e with
    | .unresolvedName n _ => "unresolved name '" ++ n ++ "'"
    | .unknownType n _ => "unknown type '" ++ n ++ "'"
    | .unknownField f t _ => "unknown field '" ++ f ++ "' on type '" ++ t ++ "'"
    | .noApplicableMethod o n a _ => "no applicable method " ++ o ++ "." ++ n ++ a
    | .noApplicableConstructor t a _ => "no applicable constructor " ++ t ++ a
    | .typeMismatch m _ => m.text
    | .notAnLvalue _ => "expression is not an lvalue"
    | .thisInStaticContext _ => "'this' is not available in a static context"
    | .missingReturn m _ => "method '" ++ m ++ "' does not return a value on every path"
    | .invalidCast f t _ => "cannot cast '" ++ f ++ "' to '" ++ t ++ "'"
    | .variableRedeclaration n o _ =>
      "variable '" ++ n ++ "' redeclared (originally declared at " ++ o.position ++ ")"
    | .invalidOperation m _ => m
    | .tooManyLocals _ => "too many local variable slots"
    | .internal m => m

end CompilationError

end ClassCompiler
