import ClassCompiler.Codegen.Emitter
import ClassCompiler.Program.Decl

/-!
# Constructors

Every constructor of a struct, module or adapter is generated: call the
superclass constructor, then store each parameter into the field of the same
position; a trailing marker parameter is not stored.

```
    ALOAD 0
    INVOKESPECIAL java/lang/Object.<init>()V
    ALOAD 0, xLOAD i, PUTFIELD field_i      -- per field
    RETURN
```
-/

namespace ClassCompiler

/-- The body of constructor `ctor` of `d`. -/
def constructorCode (d : TypeDecl) (ctor : MethodSig) : Except CompilationError Code := do
  let this : Ty := .obj d.name
  let super := d.superclass.getD objectClass
  let mut e := (Emitter.new false).load this 0 |>.invoke .invokespecial super ctor.name ⟨[], .void⟩
  let mut slot := 1
  for (f, p) in (d.fields.filter (!·.isStatic)).zip ctor.sourceParams do
    if f.ty != p then
      throw (.internal ("constructor of '" ++ d.name ++ "' does not match field '" ++ f.name ++ "'"))
    e := ((e.load this 0).load p slot).field .putfield d.name f.name f.ty
    slot := slot + p.slotSize
  (e.emit .returnVoid).finish (1 + ctor.type.paramSlots)

end ClassCompiler
