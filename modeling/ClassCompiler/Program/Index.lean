import ClassCompiler.Program.Library

/-!
# The class table

Every declaration in registration order — the platform classes first, then
each file's classes, then the impl adapters — and which traits each struct
implements, in the order the impls were registered.

* `ClassTable.register` refuses a second declaration of a name;
* `ClassTable.ancestors`: a class and its superclasses, nearest first;
* `ClassTable.findField?`, `ClassTable.findMethod?`: lookups through the
  superclasses;
* `ClassTable.findTraitMethod?`: the first trait of a struct, in impl order,
  declaring a fitting method;
* `adapterName`: the adapter of `impl T for S` is `T$S` with the slashes of `S`
  turned into underscores, a rule the reflective cast rebuilds at run time
  (`runtimeAdapterName`).
-/

namespace ClassCompiler

/-- The adapter class of `impl traitName for structName`. -/
def adapterName (traitName structName : String) : String :=
  traitName ++ "$" ++ structName.map (Ty.replaceChar '/' '_')

/-- The text a reflective cast to a trait loads before the operand's class
    name: the trait's binary name and `$`. -/
def adapterPrefix (traitName : String) : String := Ty.dotted traitName ++ "$"

/-- The binary name of the adapter that a reflective cast to `traitName` looks
    up at run time for an operand of class `className` (given by its internal
    name): the prefix, then the binary name of the operand's class with its dots
    turned into underscores. -/
def runtimeAdapterName (traitName className : String) : String :=
  adapterPrefix traitName ++ (Ty.dotted className).map (Ty.replaceChar '.' '_')

/-- Declarations in registration order and the (struct, trait) pairs of impls. -/
structure ClassTable where
  decls : Array TypeDecl
  impls : List (String × String)
  deriving Inhabited

namespace ClassTable

/-- The table of the platform classes. -/
def platform : ClassTable := ⟨Library.classes.toArray, []⟩

def get? (t : ClassTable) (name : String) : Option TypeDecl :=
  t.decls.find? (·.name == name)

def contains (t : ClassTable) (name : String) : Bool := (t.get? name).isSome

def isTrait (t : ClassTable) (name : String) : Bool :=
  match t.get? name with
  | some d => d.isTrait
  | none => false

/-- Add a declaration; a second one of the same name is an error. -/
def register (t : ClassTable) (d : TypeDecl) : Except RegistrationError ClassTable :=
  if t.contains d.name then .error (.duplicateType (Ty.dotted d.name) d.span)
  else .ok { t with decls := t.decls.push d }

/-- Record `impl traitName for structName`, once. -/
def registerImpl (t : ClassTable) (structName traitName : String) : ClassTable :=
  if t.impls.contains (structName, traitName) then t
  else { t with impls := t.impls ++ [(structName, traitName)] }

/-- The traits a struct implements, in registration order. -/
def traitsOf (t : ClassTable) (structName : String) : List String :=
  (t.impls.filter (·.1 == structName)).map (·.2)

def implements (t : ClassTable) (structName traitName : String) : Bool :=
  t.impls.contains (structName, traitName)

/-- The chain from `name` up its superclasses, following at most `fuel` links. -/
def chain (t : ClassTable) : Nat → String → List TypeDecl
  | 0, _ => []
  | fuel + 1, name =>
    match t.get? name with
    | none => []
    | some d => d :: match d.superclass with
      | some s => t.chain fuel s
      | none => []

/-- A class and its superclasses, nearest first. -/
def ancestors (t : ClassTable) (name : String) : List TypeDecl :=
  t.chain (t.decls.size + 1) name

/-- The field `field` of `owner` or of its nearest superclass declaring it. -/
def findField? (t : ClassTable) (owner field : String) : Option (TypeDecl × FieldDecl) :=
  (t.ancestors owner).findSome? fun d => (d.field? field).map (d, ·)

/-- The first method of `owner`, then of its superclasses, that fits `args`. -/
def findMethod? (t : ClassTable) (owner name : String) (args : List Ty) :
    Option (TypeDecl × MethodSig) :=
  (t.ancestors owner).findSome? fun d => (d.findMethod? name args).map (d, ·)

/-- The first trait of `structName`, in impl order, declaring a method that
    fits `args`. -/
def findTraitMethod? (t : ClassTable) (structName name : String) (args : List Ty) :
    Option (TypeDecl × MethodSig) :=
  (t.traitsOf structName).findSome? fun tr =>
    (t.get? tr).bind fun d => (d.findMethod? name args).map (d, ·)

/-- The adapter declared for `impl traitName for structName`. -/
def adapterFor? (t : ClassTable) (traitName structName : String) : Option TypeDecl :=
  if t.implements structName traitName then
    (t.get? (adapterName traitName structName)).filter (·.kind == .adapter)
  else none

/-- The declarations written out: all but the platform's. -/
def emitted (t : ClassTable) : List TypeDecl :=
  t.decls.toList.filter (·.kind != .library)

end ClassTable

end ClassCompiler
