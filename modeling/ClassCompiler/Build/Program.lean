import ClassCompiler.Build.Error
import ClassCompiler.Codegen.Stmt
import ClassCompiler.Codegen.Constructor
import ClassCompiler.Program.Structure

/-!
# Compiling a program

The passes in order, over parsed files: the structural pass, constructor
generation for every struct, module and adapter, then every queued body in
queue order (files in order, declarations in order). The result is one class
record per written class, in registration order. The first error stops the
run.

Access flags: every class, field and method is public; static members are
static, abstract methods abstract, and a field named `wrapped` is final.
-/

namespace ClassCompiler

namespace Access

def ofField (f : FieldDecl) : Nat :=
  publicBit ||| (if f.isStatic then staticBit else 0) ||| (if f.name == wrappedField then finalBit else 0)

def ofMethod (m : MethodSig) : Nat :=
  publicBit ||| (if m.isStatic then staticBit else 0) ||| (if m.isAbstract then abstractBit else 0)

end Access

/-- The declaration and signature a key names. -/
def lookupMethod (t : ClassTable) (k : MethodKey) : Except CompilationError (TypeDecl × MethodSig) :=
  match t.get? k.owner with
  | none => .error (.internal ("no declaration for " ++ k.text))
  | some d =>
    match d.methods.find? fun m => m.name == k.name && m.descriptor == k.descriptor with
    | none => .error (.internal ("no signature for " ++ k.text))
    | some m => .ok (d, m)

/-- The generated constructors of every struct, module and adapter. -/
def constructors (t : ClassTable) : Except BuildError (List (MethodKey × Code)) :=
  (t.emitted.filter fun d => d.isInstantiable || d.adapter.isSome).flatMapM fun d =>
    (d.methods.filter (·.isConstructor)).mapM fun ctor =>
      match constructorCode d ctor with
      | .ok code => .ok (MethodKey.of d.name ctor, code)
      | .error e => .error (.compilation (d.sourceFile.getD d.name) e)

/-- Compile the queued bodies in order. -/
def compileJobs (files : List (String × Syntax.SourceFile)) (opts : CompileOptions) (s : Structure) :
    Except BuildError (List (MethodKey × Code)) :=
  s.jobs.mapM fun job => do
    let (file, aliases) := match files[job.unit]? with
      | some (name, f) => (name, f.aliases)
      | none => ("", {})
    let (owner, sig) ← (lookupMethod s.table job.key).mapError (.compilation file)
    let holder := ((s.holders[job.unit]?).bind id).bind s.table.get?
    let code ← (compileMethod ⟨s.table, aliases, opts, owner, sig, holder⟩ job.decl).mapError
      (.compilation file)
    return (job.key, code)

/-- The body of a method among the compiled ones; of two with the same key,
    the later one. -/
def bodyOf? (bodies : List (MethodKey × Code)) (key : MethodKey) : Option Code :=
  (bodies.reverse.find? (·.1 == key)).map (·.2)

/-- The record of a declaration, with the bodies of its methods. -/
def classRecordOf (bodies : List (MethodKey × Code)) (d : TypeDecl) : Except BuildError ClassRecord := do
  let methods ← d.methods.mapM fun m =>
    if m.isAbstract then pure ⟨m.name, m.descriptor, Access.ofMethod m, none⟩
    else
      let key := MethodKey.of d.name m
      match bodyOf? bodies key with
      | some code => pure ⟨m.name, m.descriptor, Access.ofMethod m, some code⟩
      | none => .error (.compilation (d.sourceFile.getD d.name) (.internal ("no body for " ++ key.text)))
  return { name := d.name, kind := d.kind, access := Access.ofClass d.kind,
           superclass := d.superclass, interfaces := d.interfaces,
           fields := d.fields.map fun f => ⟨f.name, f.ty.descriptor, Access.ofField f⟩,
           methods := methods, sourceFile := d.sourceFile }

/-- Compile parsed files, named as given, into class records. -/
def compileProgram (files : List (String × Syntax.SourceFile)) (opts : CompileOptions) :
    Except BuildError (List ClassRecord) := do
  let s ← (buildStructure files).mapError fun e => .registration e.file e.error
  let ctors ← constructors s.table
  let bodies ← compileJobs files opts s
  s.table.emitted.mapM (classRecordOf (ctors ++ bodies))

end ClassCompiler
