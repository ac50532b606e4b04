import ClassCompiler.Jvm.Descriptor
import ClassCompiler.Jvm.ClassRecord
import ClassCompiler.Program.Error

/-!
# Declarations

One `TypeDecl` per class the program declares or uses: its kind, superclass,
interfaces, fields and method signatures. Source classes get them from the
structural pass; platform classes from the library table.

* Constructors are named `<init>`. Those of structs and modules take the fields
  in order and then a trailing `java/lang/Void` marker that callers never
  write; `MethodSig.sourceParams` strips it.
* `TypeDecl.addField` and `TypeDecl.addMethod` refuse a second field of a
  name, or a second method of a name, parameters and return type.
* Overloads are chosen by `MethodType.fits`: the first declared method whose
  parameters equal the argument types, `null` fitting any position.
-/

namespace ClassCompiler

/-- The name of every constructor. -/
def constructorName : String := "<init>"

/-- The field of an adapter holding the struct it wraps. -/
def wrappedField : String := "wrapped"

/-- A field. Only platform classes have static fields. -/
structure FieldDecl where
  name : String
  ty : Ty
  isStatic : Bool
  span : Span
  deriving DecidableEq, Repr, Inhabited

/-- A method signature; `paramNames` is empty for generated and platform
    methods. -/
structure MethodSig where
  name : String
  params : List Ty
  paramNames : List String
  ret : Ty
  isStatic : Bool
  isAbstract : Bool
  span : Span
  deriving DecidableEq, Repr, Inhabited

namespace MethodSig

/-- A public instance method. -/
def instanceMethod (name : String) (params : List Ty) (ret : Ty) : MethodSig :=
  ⟨name, params, [], ret, false, false, ⟨0, 0, 0⟩⟩

/-- A public static method. -/
def staticMethod (name : String) (params : List Ty) (ret : Ty) : MethodSig :=
  { instanceMethod name params ret with isStatic := true }

/-- A constructor taking `params`. -/
def constructor (params : List Ty) : MethodSig := instanceMethod constructorName params .void

def isConstructor (m : MethodSig) : Bool := m.name == constructorName

def type (m : MethodSig) : MethodType := ⟨m.params, m.ret⟩

def descriptor (m : MethodSig) : String := m.type.descriptor

/-- The parameters callers write: a constructor's trailing marker is left out. -/
def sourceParams (m : MethodSig) : List Ty :=
  match m.params.getLast? with
  | some (.obj n) => if m.isConstructor && n == voidMarkerClass then m.params.dropLast else m.params
  | _ => m.params

/-- Whether the signature ends in the constructor marker. -/
def hasMarker (m : MethodSig) : Bool := m.sourceParams.length != m.params.length

/-- Same name, parameters and return type. -/
def sameSignature (a b : MethodSig) : Bool :=
  a.name == b.name && a.params == b.params && a.ret == b.ret

end MethodSig

/-- The trait and struct an adapter connects. -/
structure AdapterInfo where
  traitName : String
  structName : String
  deriving DecidableEq, Repr, Inhabited

/-- A class-level declaration. -/
structure TypeDecl where
  name : String
  kind : ClassKind
  superclass : Option String
  interfaces : List String
  fields : List FieldDecl
  methods : List MethodSig
  adapter : Option AdapterInfo
  sourceFile : Option String
  span : Span
  deriving Repr, Inhabited

namespace TypeDecl

/-- An empty declaration; every class but the platform's extends `Object`. -/
def empty (name : String) (kind : ClassKind) : TypeDecl :=
  ⟨name, kind, if kind == .library then none else some objectClass, [], [], [], none, none, ⟨0, 0, 0⟩⟩

def field? (d : TypeDecl) (name : String) : Option FieldDecl :=
  d.fields.find? (·.name == name)

/-- Append a field, refusing a second one of the same name. -/
def addField (d : TypeDecl) (f : FieldDecl) : Except RegistrationError TypeDecl :=
  if (d.field? f.name).isSome then .error (.duplicateField (Ty.dotted d.name) f.name f.span)
  else .ok { d with fields := d.fields ++ [f] }

/-- Append a method, refusing a second one with the same name and descriptor. -/
def addMethod (d : TypeDecl) (m : MethodSig) : Except RegistrationError TypeDecl :=
  if d.methods.any (·.sameSignature m) then
    .error (.duplicateMethod (Ty.dotted d.name) m.name m.descriptor m.span)
  else .ok { d with methods := d.methods ++ [m] }

def isTrait (d : TypeDecl) : Bool := d.kind == .trait

/-- Structs and modules can be created with `new` and can implement traits. -/
def isInstantiable (d : TypeDecl) : Bool := d.kind == .struct || d.kind == .module

/-- The object type of the declaration. -/
def asType (d : TypeDecl) : Ty := .obj d.name

/-- The first method of the name, other than a constructor, whose parameters
    fit `args`. -/
def findMethod? (d : TypeDecl) (name : String) (args : List Ty) : Option MethodSig :=
  d.methods.find? fun m => m.name == name && !m.isConstructor && MethodType.fits m.params args

/-- The first constructor whose parameters, marker left out, fit `args`. -/
def findConstructor? (d : TypeDecl) (args : List Ty) : Option MethodSig :=
  d.methods.find? fun m => m.name == constructorName && MethodType.fits m.sourceParams args

/-- The method of exactly this name and type. -/
def findExact? (d : TypeDecl) (name : String) (t : MethodType) : Option MethodSig :=
  d.methods.find? fun m => m.name == name && m.params == t.params && m.ret == t.ret

end TypeDecl

end ClassCompiler
