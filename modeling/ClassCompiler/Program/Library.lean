import ClassCompiler.Program.Decl

/-!
# Platform classes

The parts of the platform library a program can name: `Object`, `String`,
`CharSequence`, `System` with its streams, `PrintStream`, `Integer`, `Math`,
the constructor marker `Void`, and the reflection classes the trait casts use.
They take part in lookups and are never written out. `Object` comes first and
is the only class without a superclass.
-/

namespace ClassCompiler

namespace Library

def classClass : String := "java/lang/Class"
def constructorClass : String := "java/lang/reflect/Constructor"
def charSequenceClass : String := "java/lang/CharSequence"
def printStreamClass : String := "java/io/PrintStream"
def systemClass : String := "java/lang/System"
def integerClass : String := "java/lang/Integer"
def mathClass : String := "java/lang/Math"

/-- A platform class with its methods and static fields. -/
def platform (name : String) (methods : List MethodSig) (statics : List (String × Ty)) : TypeDecl :=
  { TypeDecl.empty name .library with
    superclass := if name == objectClass then none else some objectClass
    methods := methods
    fields := statics.map fun (n, t) => ⟨n, t, true, ⟨0, 0, 0⟩⟩ }

open MethodSig in
/-- `println` and `print` of every printable type. -/
def printMethods : List MethodSig :=
  instanceMethod "println" [] .void ::
    ([Ty.string, .int, .long, .float, .double, .bool, .char, Ty.object].flatMap fun t =>
      [instanceMethod "println" [t] .void, instanceMethod "print" [t] .void])

open MethodSig in
/-- Every platform declaration, `Object` first. -/
def classes : List TypeDecl :=
  let cls : Ty := .obj classClass
  let seq : Ty := .obj charSequenceClass
  [ platform objectClass
      [constructor [], instanceMethod "toString" [] Ty.string,
        instanceMethod "equals" [Ty.object] .bool, instanceMethod "hashCode" [] .int,
        instanceMethod "getClass" [] cls] [],
    platform stringClass
      [instanceMethod "length" [] .int, instanceMethod "isEmpty" [] .bool,
        instanceMethod "charAt" [.int] .char, instanceMethod "concat" [Ty.string] Ty.string,
        instanceMethod "replace" [.char, .char] Ty.string,
        instanceMethod "replace" [seq, seq] Ty.string,
        staticMethod "valueOf" [.int] Ty.string, staticMethod "valueOf" [Ty.object] Ty.string] [],
    platform charSequenceClass [] [],
    platform systemClass [] [("out", .obj printStreamClass), ("err", .obj printStreamClass)],
    platform printStreamClass printMethods [],
    platform integerClass
      [staticMethod "toString" [.int] Ty.string, staticMethod "parseInt" [Ty.string] .int] [],
    platform mathClass
      [staticMethod "abs" [.int] .int, staticMethod "abs" [.long] .long,
        staticMethod "abs" [.double] .double, staticMethod "max" [.int, .int] .int,
        staticMethod "min" [.int, .int] .int] [],
    platform voidMarkerClass [] [],
    platform classClass
      [instanceMethod "getName" [] Ty.string, staticMethod "forName" [Ty.string] cls,
        instanceMethod "getDeclaredConstructor" [.array cls] (.obj constructorClass)] [],
    platform constructorClass
      [instanceMethod "newInstance" [.array Ty.object] Ty.object] [] ]

end Library

end ClassCompiler
