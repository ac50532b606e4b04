/-!
# Value types

The types of the language, as the target machine sees them: the primitive
types, classes by their internal (slash-separated) name, arrays, the type of
`null`, and *type references*, which stand for a type name used where a value
is expected (`System` in `System.out`). Each type has a descriptor letter code
and a kind that fixes how it is loaded, stored and returned and how many local
slots it takes.

* `Ty.descriptor` / `Ty.display`: the descriptor and the readable name;
* `Ty.accepts`: a value of one type may be stored where the other is declared;
* `Ty.kind`, `Ty.slotSize`: the machine kind and its width in slots.
-/

namespace ClassCompiler

/-- The internal name of the root class. -/
def objectClass : String := "java/lang/Object"

/-- The internal name of the string class. -/
def stringClass : String := "java/lang/String"

/-- The class whose only value `null` marks the synthesised constructors. -/
def voidMarkerClass : String := "java/lang/Void"

/-- A type of the language. -/
inductive Ty where
  | void
  | int
  | long
  | float
  | double
  | bool
  | byte
  | char
  | short
  /-- A class by its internal name. -/
  | obj (name : String)
  | array (elem : Ty)
  /-- A type name used as a value: only its static members can be reached. -/
  | typeRef (target : Ty)
  /-- The type of `null`. -/
  | null
  deriving DecidableEq, Repr, Inhabited

/-- How the machine handles a value: which load, store and return it takes. -/
inductive Kind where
  | void
  | int
  | long
  | float
  | double
  | reference
  deriving DecidableEq, Repr, Inhabited

namespace Kind

/-- The number of local slots, and of stack words, a value of the kind takes. -/
def size : Kind → Nat
  | .void => 0
  | .long | .double => 2
  | _ => 1

/-- The name of the kind. -/
def name : Kind → String
  | .void => "Void"
  | .int => "Int"
  | .long => "Long"
  | .float => "Float"
  | .double => "Double"
  | .reference => "Reference"

end Kind

namespace Ty

/-- The string class as a type. -/
def string : Ty := .obj stringClass

/-- The root class as a type. -/
def object : Ty := .obj objectClass

/-- The kind: booleans, bytes, chars and shorts compute as ints. -/
def kind : Ty → Kind
  | .void => .void
  | .int | .bool | .byte | .char | .short => .int
  | .long => .long
  | .float => .float
  | .double => .double
  | .obj _ | .array _ | .typeRef _ | .null => .reference

/-- The number of local slots a value takes. -/
def slotSize (t : Ty) : Nat := t.kind.size

def isVoid : Ty → Bool
  | .void => true
  | _ => false

def isNull : Ty → Bool
  | .null => true
  | _ => false

def isTypeRef : Ty → Bool
  | .typeRef _ => true
  | _ => false

def isArray : Ty → Bool
  | .array _ => true
  | _ => false

/-- A value of a primitive kind (not a reference, not void). -/
def isPrimitive (t : Ty) : Bool :=
  match t.kind with
  | .reference | .void => false
  | _ => true

/-- A class, array or `null`; a type reference is none. -/
def isReference : Ty → Bool
  | .obj _ | .array _ | .null => true
  | _ => false

/-- The types arithmetic applies to; `bool` is not one. -/
def isNumeric : Ty → Bool
  | .int | .long | .float | .double | .byte | .char | .short => true
  | _ => false

/-- The types an index or array length may have. -/
def isIntLike : Ty → Bool
  | .int | .short | .byte | .char => true
  | _ => false

def element? : Ty → Option Ty
  | .array e => some e
  | _ => none

def target? : Ty → Option Ty
  | .typeRef t => some t
  | _ => none

def className? : Ty → Option String
  | .obj n => some n
  | _ => none

/-- The descriptor: one letter for a primitive, `L name ;` for a class, `[` before
    an element, `T` before a referenced type, `U` for the type of `null`. -/
def descriptor : Ty → String
  | .void => "V"
  | .int => "I"
  | .long => "J"
  | .float => "F"
  | .double => "D"
  | .bool => "Z"
  | .byte => "B"
  | .char => "C"
  | .short => "S"
  | .obj n => "L" ++ n ++ ";"
  | .array e => "[" ++ e.descriptor
  | .typeRef t => "T" ++ t.descriptor
  | .null => "U"

/-- The operand of a class instruction: the name of a class, the descriptor of
    an array. -/
def classOperand? : Ty → Option String
  | .obj n => some n
  | t@(.array _) => some t.descriptor
  | _ => none

/-- The character map that turns `old` into `new` and keeps every other
    character: one-character text replacement, character by character. -/
def replaceChar (old new c : Char) : Char := if c = old then new else c

/-- A name with its slashes turned into dots. -/
def dotted (name : String) : String := name.map (replaceChar '/' '.')

/-- A name with its dots turned into slashes. -/
def slashed (name : String) : String := name.map (replaceChar '.' '/')

theorem toList_dotted (name : String) :
    (dotted name).toList = name.toList.map (replaceChar '/' '.') := by
  simp [dotted, String.toList_map]

theorem toList_slashed (name : String) :
    (slashed name).toList = name.toList.map (replaceChar '.' '/') := by
  simp [slashed, String.toList_map]

/-- A slashed name holds no dot, so every internal name made from a dotted
    source name is free of dots. -/
theorem dot_not_mem_slashed (name : String) : '.' ∉ (slashed name).toList := by
  simp only [toList_slashed, List.mem_map, not_exists, not_and]
  intro c _
  unfold replaceChar
  split <;> simp_all

/-- The readable name: `int`, `bool`, `a.b.C`, `int[]`, `type C`, `null`. -/
def display : Ty → String
  | .void => "void"
  | .int => "int"
  | .long => "long"
  | .float => "float"
  | .double => "double"
  | .bool => "bool"
  | .byte => "byte"
  | .char => "char"
  | .short => "short"
  | .obj n => dotted n
  | .array e => e.display ++ "[]"
  | .typeRef t => "type " ++ t.display
  | .null => "null"

/-- A value of type `v` may be stored where `t` is declared: the types are equal,
    or the value is `null` and `t` is a reference type. -/
def accepts (t v : Ty) : Bool :=
  t == v || (v.isNull && t.isReference)

/-- The type a built-in type name stands for. -/
def ofBuiltinName? : String → Option Ty
  | "void" => some .void
  | "int" => some .int
  | "long" => some .long
  | "float" => some .float
  | "double" => some .double
  | "bool" => some .bool
  | "byte" => some .byte
  | "char" => some .char
  | "short" => some .short
  | "obj" => some object
  | _ => none

/-- Argument types as the readable list `(int, long)`. -/
def displayList (ts : List Ty) : String :=
  "(" ++ ", ".intercalate (ts.map display) ++ ")"

theorem accepts_refl (t : Ty) : t.accepts t = true := by
  simp [accepts]

theorem accepts_null {t : Ty} (h : t.isReference = true) : t.accepts .null = true := by
  simp [accepts, isNull, h]

end Ty

end ClassCompiler
