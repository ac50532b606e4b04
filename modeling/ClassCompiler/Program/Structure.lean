import ClassCompiler.Program.Resolve

/-!
# The structural pass

Every file, in input order, and every declaration in it, in order, becomes a
`TypeDecl`; bodies are not looked at but queued as jobs for code generation.

* A struct or module gets its fields and a constructor taking them followed
  by the `java/lang/Void` marker; a module's functions are instance methods.
* A trait gets abstract methods.
* `impl T for S` gets an adapter class `T$S` implementing `T`, with a final
  field `wrapped` of type `S` and a constructor taking it. Adapters are
  registered after every file's declarations, and impls are checked only then,
  so an impl may name a trait or struct of a later file.
* The global functions of a file become static methods of a holder class named
  after the file (directories and a `.atp` suffix removed), created at the
  first function, so it stands at that function's place among the file's
  declarations.

The first error stops the pass; it is reported against the file it is in.
-/

namespace ClassCompiler

/-- A method named by its class, name and descriptor. -/
structure MethodKey where
  owner : String
  name : String
  descriptor : String
  deriving DecidableEq, Repr, Inhabited

def MethodKey.text (k : MethodKey) : String := k.owner ++ "." ++ k.name ++ k.descriptor

def MethodKey.of (owner : String) (m : MethodSig) : MethodKey := ⟨owner, m.name, m.descriptor⟩

/-- A body waiting for code generation: the method it implements, the index of
    its file, and its declaration. -/
structure BodyJob where
  key : MethodKey
  unit : Nat
  decl : Syntax.FnDecl
  deriving Inhabited

/-- A registration error and the name of the file it was found in. -/
structure FileError where
  file : String
  error : RegistrationError
  deriving Repr

/-- What the structural pass produces. -/
structure Structure where
  table : ClassTable
  jobs : List BodyJob
  /-- The holder class of each file's global functions, if it has any. -/
  holders : List (Option String)
  deriving Inhabited

/-- The file name without directories. -/
def sourceFileName (file : String) : String :=
  match (file.toList.splitOnP fun c => c == '/' || c == '\\').getLast? with
  | some s => String.ofList s
  | none => file

/-- The holder class of a file: its name without directories and `.atp`. -/
def holderName (file : String) : String :=
  let base := sourceFileName file
  if base.endsWith ".atp" then String.ofList (base.toList.take (base.length - 4)) else base

/-- An impl to check once every class is registered. -/
structure PendingImpl where
  adapter : String
  traitName : String
  structName : String
  span : Span
  unit : Nat

/-- The pass over one file: its declarations so far, the position of its
    holder among them, and what it hands on. -/
structure FilePass where
  unit : Nat
  sourceName : String
  holder : String
  resolver : Resolver
  decls : Array TypeDecl
  holderAt : Option Nat
  jobs : Array BodyJob
  pending : Array PendingImpl
  adapters : Array TypeDecl

namespace FilePass

def declName (p : Syntax.Path) : String := Ty.slashed p.dotted

def newDecl (fp : FilePass) (name : String) (kind : ClassKind) (span : Span) : TypeDecl :=
  { TypeDecl.empty name kind with span := span, sourceFile := some fp.sourceName }

/-- The signature of a declared function. -/
def signature (fp : FilePass) (s : Syntax.Sig) (isStatic : Bool) : MethodSig :=
  { name := s.name.name
    params := s.params.map fun p => fp.resolver.resolve p.ty
    paramNames := s.params.map (·.name.name)
    ret := (s.ret.map fp.resolver.resolve).getD .void
    isStatic := isStatic
    isAbstract := false
    span := s.span }

/-- Add the fields, then the constructor taking them and the marker. -/
def addFields (fp : FilePass) (d : TypeDecl) (fields : List Syntax.Field) :
    Except RegistrationError TypeDecl := do
  let mut d := d
  let mut params : Array Ty := #[]
  for f in fields do
    let t := fp.resolver.resolve f.ty
    params := params.push t
    d ← d.addField ⟨f.name.name, t, false, f.span⟩
  d.addMethod { MethodSig.constructor (params.push (.obj voidMarkerClass)).toList with span := d.span }

/-- Queue a body and add its signature. -/
def addBody (fp : FilePass) (d : TypeDecl) (f : Syntax.FnDecl) (isStatic : Bool) :
    Except RegistrationError (FilePass × TypeDecl) := do
  let sig := fp.signature f.sig isStatic
  let fp := { fp with jobs := fp.jobs.push ⟨MethodKey.of d.name sig, fp.unit, f⟩ }
  return (fp, ← d.addMethod sig)

def addBodies (fp : FilePass) (d : TypeDecl) (fs : List Syntax.FnDecl) :
    Except RegistrationError (FilePass × TypeDecl) :=
  fs.foldlM (fun (fp, d) f => fp.addBody d f false) (fp, d)

/-- The pass over one declaration. -/
def item (fp : FilePass) : Syntax.Item → Except RegistrationError FilePass
  | .importDecl .. => pure fp
  | .moduleDecl name fields methods span => do
    let d ← fp.addFields (fp.newDecl (declName name) .module span) fields
    let (fp, d) ← fp.addBodies d methods
    return { fp with decls := fp.decls.push d }
  | .structDecl name fields span => do
    let d ← fp.addFields (fp.newDecl (declName name) .struct span) fields
    return { fp with decls := fp.decls.push d }
  | .traitDecl name sigs span => do
    let d ← sigs.foldlM (fun d s => d.addMethod { fp.signature s false with isAbstract := true })
      (fp.newDecl (declName name) .trait span)
    return { fp with decls := fp.decls.push d }
  | .implDecl traitTy target methods span => do
    let traitName ← match fp.resolver.resolve traitTy with
      | .obj n => pure n
      | _ => throw (.notATrait traitTy.path.dotted traitTy.span)
    let structTy := fp.resolver.resolve target
    let structName ← match structTy with
      | .obj n => pure n
      | _ => throw (.unknownImplTarget target.path.dotted target.span)
    let name := adapterName traitName structName
    let d := { fp.newDecl name .adapter span with
      interfaces := [traitName], adapter := some ⟨traitName, structName⟩ }
    let d ← d.addField ⟨wrappedField, structTy, false, span⟩
    let d ← d.addMethod { MethodSig.constructor [structTy] with span := span }
    let (fp, d) ← fp.addBodies d methods
    return { fp with
      adapters := fp.adapters.push d
      pending := fp.pending.push ⟨name, traitName, structName, span, fp.unit⟩ }
  | .fnDecl f => do
    let (fp, pos) := match fp.holderAt with
      | some pos => (fp, pos)
      | none =>
        ({ fp with decls := fp.decls.push (fp.newDecl fp.holder .globals f.span),
                   holderAt := some fp.decls.size }, fp.decls.size)
    let sig := fp.signature f.sig true
    let owner := fp.decls.getD pos default
    let fp := { fp with jobs := fp.jobs.push ⟨MethodKey.of owner.name sig, fp.unit, f⟩ }
    let owner ← owner.addMethod sig
    return { fp with decls := fp.decls.setIfInBounds pos owner }

end FilePass

/-- The class names of the platform and of every declared module, struct and
    trait, so that types resolve whatever the order of declarations. -/
def knownNames (files : List (String × Syntax.SourceFile)) : List String :=
  Library.classes.map (·.name) ++ files.flatMap fun (_, f) => f.items.filterMap fun
    | .moduleDecl n .. | .structDecl n .. | .traitDecl n .. => some (FilePass.declName n)
    | _ => none

/-- Check an impl: the trait must be a trait, the target a struct or module,
    and the adapter must have every method of the trait with its exact type. -/
def checkImpl (t : ClassTable) (p : PendingImpl) : Except RegistrationError Unit := do
  let traitDecl ← match (t.get? p.traitName).filter (·.isTrait) with
    | some d => pure d
    | none => throw (.notATrait (Ty.dotted p.traitName) p.span)
  unless ((t.get? p.structName).map (·.isInstantiable)).getD false do
    throw (.unknownImplTarget (Ty.dotted p.structName) p.span)
  let adapter ← match t.get? p.adapter with
    | some d => pure d
    | none => throw (.unknownImplTarget (Ty.dotted p.adapter) p.span)
  for m in traitDecl.methods do
    if (adapter.findExact? m.name m.type).isNone then
      throw (.missingTraitMethod (Ty.dotted p.traitName) (Ty.dotted p.structName) m.name
        m.descriptor p.span)

/-- Run the structural pass over the parsed files, named as given. -/
def buildStructure (files : List (String × Syntax.SourceFile)) : Except FileError Structure := do
  let names := knownNames files
  let known : String → Bool := fun n => names.contains n
  let nameOf (i : Nat) : String := ((files[i]?).map (·.1)).getD ""
  let mut table := ClassTable.platform
  let mut jobs : Array BodyJob := #[]
  let mut holders : Array (Option String) := #[]
  let mut pending : Array PendingImpl := #[]
  let mut adapters : Array (Nat × TypeDecl) := #[]
  for (file, i) in files.zipIdx do
    let start : FilePass :=
      { unit := i, sourceName := sourceFileName file.1, holder := holderName file.1,
        resolver := ⟨file.2.aliases, known⟩, decls := #[], holderAt := none,
        jobs := jobs, pending := pending, adapters := #[] }
    let fp ← match file.2.items.foldlM FilePass.item start with
      | .ok fp => pure fp
      | .error e => throw ⟨file.1, e⟩
    jobs := fp.jobs
    pending := fp.pending
    holders := holders.push (fp.holderAt.map fun _ => fp.holder)
    adapters := adapters ++ fp.adapters.map (i, ·)
    for d in fp.decls do
      table ← match table.register d with
        | .ok t => pure t
        | .error e => throw ⟨file.1, e⟩
  for (i, d) in adapters do
    table ← match table.register d with
      | .ok t => pure t
      | .error e => throw ⟨nameOf i, e⟩
  for p in pending do
    match checkImpl table p with
    | .ok () => table := table.registerImpl p.structName p.traitName
    | .error e => throw ⟨nameOf p.unit, e⟩
  return ⟨table, jobs.toList, holders.toList⟩

end ClassCompiler
