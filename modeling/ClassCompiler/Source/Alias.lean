import ClassCompiler.Jvm.Ty

/-!
# Import aliases

The names a file's imports bring into scope. `import a.b.C;` makes `C` stand
for `a/b/C`, and `import a.b.C as D;` makes `D` stand for it. A name without an
alias stands for itself, with its dots turned into slashes. The map keeps its
entries sorted by alias; adding an alias again replaces its target.

* `AliasMap.insert`: add an entry, returning the target it replaces;
* `AliasMap.resolve`: the qualified name a source name stands for.
-/

namespace ClassCompiler

/-- Aliases and the internal names they stand for, sorted by alias. -/
structure AliasMap where
  entries : List (String × String) := []
  deriving Repr, Inhabited

namespace AliasMap

/-- The entries with the alias `short` set to `target`, kept sorted. -/
def put (short target : String) : List (String × String) → List (String × String)
  | [] => [(short, target)]
  | (a, t) :: rest =>
    if short = a then (short, target) :: rest
    else if short < a then (short, target) :: (a, t) :: rest
    else (a, t) :: put short target rest

/-- The target of the alias `short`, if it has one. -/
def get? (m : AliasMap) (short : String) : Option String :=
  (m.entries.find? (·.1 == short)).map (·.2)

/-- Make `short` stand for `target` (dots become slashes); the previous target
    of the alias, if any, is returned. -/
def insert (m : AliasMap) (short target : String) : Option String × AliasMap :=
  (m.get? short, ⟨put short (Ty.slashed target) m.entries⟩)

/-- The internal name a source name stands for. -/
def resolve (m : AliasMap) (name : String) : String :=
  (m.get? name).getD (Ty.slashed name)

/-- The number of aliases. -/
def size (m : AliasMap) : Nat := m.entries.length

theorem get?_put (short target : String) (l : List (String × String)) :
    ((put short target l).find? (·.1 == short)).map (·.2) = some target := by
  induction l with
  | nil => simp [put]
  | cons p rest ih =>
    obtain ⟨a, t⟩ := p
    unfold put
    by_cases h : short = a
    · simp [h]
    · by_cases h' : short < a
      · simp [h, h']
      · have : (a == short) = false := by simp; exact fun e => h e.symm
        simp [h, h', this, ih]

theorem resolve_insert (m : AliasMap) (short target : String) :
    (m.insert short target).2.resolve short = Ty.slashed target := by
  simp [insert, resolve, get?, get?_put]

end AliasMap

end ClassCompiler
