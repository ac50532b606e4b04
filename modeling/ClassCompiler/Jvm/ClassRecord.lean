import ClassCompiler.Jvm.Instruction

/-!
# Class records

A compiled class before it is written out: its name, what it was declared as,
its access flags, superclass, interfaces, fields and methods, the methods with
their bodies. The listing of a record is the text the `dump` command prints.
-/

namespace ClassCompiler

/-- What a class was declared as. -/
inductive ClassKind where
  | module
  | struct
  | trait
  /-- The adapter generated for an `impl` of a trait for a struct. -/
  | adapter
  /-- The class holding a file's global functions. -/
  | globals
  /-- A class of the platform known only by its members. -/
  | library
  deriving DecidableEq, Repr, Inhabited

namespace ClassKind

/-- The word of the kind, as listings write it. -/
def word : ClassKind → String
  | .module => "module"
  | .struct => "struct"
  | .trait => "trait"
  | .adapter => "impl"
  | .globals => "globals"
  | .library => "library"

/-- The kind named by a word. -/
def ofWord? : String → Option ClassKind
  | "module" => some .module
  | "struct" => some .struct
  | "trait" => some .trait
  | "impl" => some .adapter
  | "globals" => some .globals
  | "library" => some .library
  | _ => none

end ClassKind

-- Access flag bits of classes, fields and methods.
namespace Access

def publicBit : Nat := 0x0001
def staticBit : Nat := 0x0008
def finalBit : Nat := 0x0010
def superBit : Nat := 0x0020
def interfaceBit : Nat := 0x0200
def abstractBit : Nat := 0x0400
def syntheticBit : Nat := 0x1000

/-- The flags of a class of a kind: traits are public abstract interfaces,
    adapters are synthetic. -/
def ofClass : ClassKind → Nat
  | .trait => publicBit ||| interfaceBit ||| abstractBit
  | .adapter => publicBit ||| superBit ||| syntheticBit
  | _ => publicBit ||| superBit

end Access

/-- A field of a class record. -/
structure FieldRecord where
  name : String
  descriptor : String
  access : Nat
  deriving Repr, Inhabited

/-- A method of a class record; abstract methods have no body. -/
structure MethodRecord where
  name : String
  descriptor : String
  access : Nat
  code : Option Code
  deriving Repr, Inhabited

/-- A class ready to be written. -/
structure ClassRecord where
  name : String
  kind : ClassKind
  access : Nat
  superclass : Option String
  interfaces : List String
  fields : List FieldRecord
  methods : List MethodRecord
  sourceFile : Option String
  deriving Repr, Inhabited

namespace ClassRecord

/-- The listing: a header line, a line per field, and a line per method
    followed by its body's listing. -/
def text (c : ClassRecord) : String :=
  let header := c.kind.word ++ " " ++ c.name ++
    (match c.superclass with
     | some s => " extends " ++ s
     | none => "") ++
    (if c.interfaces.isEmpty then "" else " implements " ++ ", ".intercalate c.interfaces) ++ "\n"
  let fields := String.join (c.fields.map fun f => "  field " ++ f.name ++ " " ++ f.descriptor ++ "\n")
  let methods := String.join (c.methods.map fun m =>
    "  method " ++ m.name ++ m.descriptor ++ "\n" ++
      (match m.code with
       | some code => code.text
       | none => ""))
  header ++ fields ++ methods

/-- Whether the last segment of a name can name a file: it is not empty, `.`
    or `..`. -/
def namesFile (segment : String) : Bool :=
  !(segment.isEmpty || segment == "." || segment == "..")

/-- The path of the class file under an output directory: one directory per
    package segment, then the simple name with `.class`. A last segment that
    names no file (`.`, `..`, or nothing) stays a directory and the file goes
    inside it, so the class `.` is written to `./..class`. -/
def relativePath (name : String) : String :=
  let segments := name.splitOn "/"
  let simple := segments.getLast?.getD ""
  let file := simple ++ ".class"
  if namesFile simple then "/".intercalate (segments.dropLast ++ [file])
  else if name.isEmpty then file
  else name ++ "/" ++ file

/-- The path of the class file `name` under the directory `outDir`: a
    separator stands between them unless the directory is empty or already
    ends with one. -/
def outputPath (outDir name : String) : String :=
  if outDir.isEmpty || outDir.endsWith "/" then outDir ++ relativePath name
  else outDir ++ "/" ++ relativePath name

end ClassRecord

end ClassCompiler
