import ClassCompiler.Jvm.Ty

/-!
# Descriptors

Reading type and method descriptors back into types. A field descriptor is
read letter by letter; a method descriptor is `(` parameters `)` return type.
A failure names the text it was reading when it failed (for most faults the
rest of the descriptor from that point) and the fault.

* `Ty.parsePrefix`: one type from the front of a text, and the rest;
* `Ty.ofDescriptor`: a whole text as one type;
* `MethodType.ofDescriptor`: a whole text as a method type;
-/

namespace ClassCompiler

/-- Why a descriptor cannot be read. -/
inductive DescriptorFault where
  | unexpectedEnd
  | unterminatedClassName
  | emptyClassName
  | arrayOfVoid
  | unexpectedChar (c : Char)
  | trailing (rest : String)
  | missingOpen
  | missingClose
  | voidParameter
  /-- A member instruction given without the member it refers to. -/
  | memberWithoutReference
  deriving DecidableEq, Repr

/-- The text of a fault. -/
def DescriptorFault.text : DescriptorFault → String
  | .unexpectedEnd => "unexpected end"
  | .unterminatedClassName => "unterminated class name"
  | .emptyClassName => "empty class name"
  | .arrayOfVoid => "array of void"
  | .unexpectedChar c => "unexpected character '" ++ c.toString ++ "'"
  | .trailing rest => "trailing characters '" ++ rest ++ "'"
  | .missingOpen => "missing '('"
  | .missingClose => "missing ')'"
  | .voidParameter => "void parameter"
  | .memberWithoutReference => "member instruction without a reference"

/-- A descriptor that cannot be read, or a type reference to a type reference. -/
inductive DescriptorError where
  | invalid (descriptor : String) (fault : DescriptorFault)
  | alreadyStatic (descriptor : String)
  deriving DecidableEq, Repr

namespace DescriptorError

def message : DescriptorError → String
  | .invalid d f => "invalid descriptor '" ++ d ++ "': " ++ f.text
  | .alreadyStatic d => "'" ++ d ++ "' is already a static type reference"

/-- The name of the kind of error. -/
def kindName : DescriptorError → String
  | .invalid .. => "Invalid"
  | .alreadyStatic _ => "AlreadyStatic"

end DescriptorError

namespace Ty

/-- The type reference to `t`; a reference to a type reference is refused. -/
def toTypeRef : Ty → Except DescriptorError Ty
  | t@(.typeRef _) => .error (.alreadyStatic t.descriptor)
  | t => .ok (.typeRef t)

/-- The type for one descriptor letter without operand. -/
def ofLetter? : Char → Option Ty
  | 'V' => some .void
  | 'I' => some .int
  | 'J' => some .long
  | 'F' => some .float
  | 'D' => some .double
  | 'Z' => some .bool
  | 'B' => some .byte
  | 'C' => some .char
  | 'S' => some .short
  | 'U' => some .null
  | _ => none

/-- Read one type from the front of `input`, returning the rest. A fault names
    the text being read, from the letter where that type began. -/
def parsePrefix : List Char → Except DescriptorError (Ty × List Char)
  | [] => .error (.invalid "" .unexpectedEnd)
  | input@(c :: rest) =>
    let invalid (f : DescriptorFault) : DescriptorError := .invalid (String.ofList input) f
    match ofLetter? c with
    | some t => .ok (t, rest)
    | none =>
      if c = 'L' then
        match rest.idxOf? ';' with
        | none => .error (invalid .unterminatedClassName)
        | some 0 => .error (invalid .emptyClassName)
        | some n => .ok (.obj (String.ofList (rest.take n)), rest.drop (n + 1))
      else if c = '[' then
        match parsePrefix rest with
        | .error e => .error e
        | .ok (elem, more) =>
          if elem.isVoid then .error (invalid .arrayOfVoid) else .ok (.array elem, more)
      else if c = 'T' then
        match parsePrefix rest with
        | .error e => .error e
        | .ok (inner, more) =>
          match inner.toTypeRef with
          | .error e => .error e
          | .ok t => .ok (t, more)
      else .error (invalid (.unexpectedChar c))

/-- Read a whole text as one type; characters after it are a fault. -/
def ofDescriptor (s : String) : Except DescriptorError Ty :=
  match parsePrefix s.toList with
  | .error e => .error e
  | .ok (t, []) => .ok t
  | .ok (_, rest) => .error (.invalid s (.trailing (String.ofList rest)))

end Ty

/-- The type of a method: its parameter types and its return type. -/
structure MethodType where
  params : List Ty
  ret : Ty
  deriving DecidableEq, Repr, Inhabited

namespace MethodType

/-- The method descriptor `(params)ret`. -/
def descriptor (m : MethodType) : String :=
  "(" ++ String.join (m.params.map Ty.descriptor) ++ ")" ++ m.ret.descriptor

/-- The local slots the parameters take. -/
def paramSlots (m : MethodType) : Nat :=
  m.params.foldl (fun n t => n + t.slotSize) 0

/-- Arguments fit parameters: as many of them, each equal to its parameter or
    `null`. -/
def fits (params args : List Ty) : Bool :=
  params.length == args.length &&
    (params.zip args).all fun (p, a) => a.isNull || p == a

/-- Read the parameters up to `)`, at most `fuel` of them, then the return type. -/
def parseParams (whole : String) : Nat → List Char → List Ty →
    Except DescriptorError MethodType
  | 0, _, _ => .error (.invalid whole .missingClose)
  | _ + 1, [], _ => .error (.invalid whole .missingClose)
  | fuel + 1, c :: rest, acc =>
    if c = ')' then
      match Ty.ofDescriptor (String.ofList rest) with
      | .error e => .error e
      | .ok ret => .ok ⟨acc.reverse, ret⟩
    else
      match Ty.parsePrefix (c :: rest) with
      | .error e => .error e
      | .ok (t, more) =>
        if t.isVoid then .error (.invalid whole .voidParameter)
        else parseParams whole fuel more (t :: acc)

/-- Read a method descriptor. -/
def ofDescriptor (s : String) : Except DescriptorError MethodType :=
  match s.toList with
  | '(' :: rest => parseParams s (rest.length + 1) rest []
  | _ => .error (.invalid s .missingOpen)

end MethodType

end ClassCompiler
