import ClassCompiler.Program.Index

/-!
# Resolving type names

How a type written in a file becomes a `Ty`:

* the built-in names (`int`, `bool`, `obj`, …) stand for their types and
  `string` for `java/lang/String`;
* any other name goes through the file's aliases, and a name without an alias
  is taken as already qualified (dots become slashes);
* a name of one segment that is not a known class but names a known class of
  `java/lang` stands for that class, so `System` and `Math` need no import;
* every `[]` adds an array dimension.

Resolution never fails: an unknown name becomes a class type and is reported
where it is used.
-/

namespace ClassCompiler

/-- The aliases of one file and the class names that count as known. -/
structure Resolver where
  aliases : AliasMap
  known : String → Bool

namespace Resolver

/-- The package searched for names of one segment. -/
def implicitPackage : String := "java/lang/"

/-- The internal name a dotted source name stands for. -/
def qualify (r : Resolver) (dotted : String) : String :=
  let q := r.aliases.resolve dotted
  if q.toList.contains '/' || r.known q then q
  else
    let implicit := implicitPackage ++ q
    if r.known implicit then implicit else q

/-- The type a dotted name stands for, dimensions not counted. -/
def base (r : Resolver) (dotted : String) : Ty :=
  match Ty.ofBuiltinName? dotted with
  | some t => t
  | none => if dotted == "string" then Ty.string else .obj (r.qualify dotted)

/-- The type a type expression stands for. -/
def resolve (r : Resolver) (t : Syntax.TypeExpr) : Ty :=
  Nat.repeat Ty.array t.dims (r.base t.path.dotted)

/-- The known class a dotted name used as an expression stands for. -/
def lookupType? (r : Resolver) (dotted : String) : Option String :=
  let q := r.qualify dotted
  if r.known q then some q else none

end Resolver

end ClassCompiler
