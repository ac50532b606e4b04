import ClassCompiler.Program.Decl
import Std.Data.HashMap

/-!
# The hashed type table

How the declarations of the class table are stored: in registration order,
and, for each hash of a qualified name, the positions of the declarations
whose names have that hash. Lookups and the check for a second declaration of
a name compare full names, so declarations whose names share a hash stay
apart.

The hash of a name is a 64-bit hash of its bytes; the table works with any
function, so it is a parameter `hash : String → UInt64` here. Inserting a
declaration files it under the hash of its own name, and a lookup of a name
searches under the hash of that name.

The class table (`ClassTable`) searches its declarations by name directly:
for every hash the hashed table answers the same.
-/

namespace ClassCompiler

/-- The declarations in registration order, and for each name hash the
    positions of the declarations filed under it, in registration order. -/
structure TypeTable where
  types : Array TypeDecl
  byHash : Std.HashMap UInt64 (Array Nat)
  deriving Inhabited

namespace TypeTable

def empty : TypeTable := ⟨#[], ∅⟩

/-- The position of the declaration named `name` among those filed under
    `hash`. -/
def find (t : TypeTable) (hash : UInt64) (name : String) : Option Nat :=
  t.byHash[hash]?.bind fun bucket => bucket.find? fun i => (t.types[i]?).any (·.name == name)

/-- File a declaration under `hash`, after the others; one of the same name
    filed there already is an error. -/
def insertHashed (t : TypeTable) (hash : UInt64) (d : TypeDecl) : Except RegistrationError TypeTable :=
  if (t.find hash d.name).isSome then .error (.duplicateType (Ty.dotted d.name) d.span)
  else .ok ⟨t.types.push d, t.byHash.insert hash ((t.byHash.getD hash #[]).push t.types.size)⟩

/-- File a declaration under the hash of its name. -/
def insert (hash : String → UInt64) (t : TypeTable) (d : TypeDecl) : Except RegistrationError TypeTable :=
  t.insertHashed (hash d.name) d

/-- The declaration of a name, searched under the hash of the name. -/
def get (hash : String → UInt64) (t : TypeTable) (name : String) : Option TypeDecl :=
  (t.find (hash name) name).bind fun i => t.types[i]?

/-- Insert declarations in order, a refused one leaving the table as it was:
    how the platform's declarations are registered. -/
def insertAll (hash : String → UInt64) (t : TypeTable) (ds : List TypeDecl) : TypeTable :=
  ds.foldl (fun t d => match t.insert hash d with
    | .ok t' => t'
    | .error _ => t) t

end TypeTable

end ClassCompiler
