import ClassCompiler.Build.Program
import ClassCompiler.Source.Parser
import ClassCompiler.ClassFile.Writer

/-!
# Source sets

Named source files compiled together, so that the declarations of each file
are visible from every other. Adding a name a second time replaces that file's
text and keeps its place. Compiling parses every file in order (the first file
with parse errors stops the run), then compiles the program.
-/

namespace ClassCompiler

/-- A named source text. -/
structure SourceText where
  name : String
  text : String
  deriving DecidableEq, Repr, Inhabited

/-- The files of a build, in the order they were added, and the options. -/
structure SourceSet where
  options : CompileOptions
  sources : List SourceText
  deriving Repr, Inhabited

namespace SourceSet

def empty (options : CompileOptions) : SourceSet := ⟨options, []⟩

/-- Add a file; a file of the same name has its text replaced in place. -/
def add (s : SourceSet) (name text : String) : SourceSet :=
  if s.sources.any (·.name == name) then
    { s with sources := s.sources.map fun f => if f.name == name then ⟨name, text⟩ else f }
  else { s with sources := s.sources ++ [⟨name, text⟩] }

def count (s : SourceSet) : Nat := s.sources.length

/-- The text of a file by name. -/
def source? (s : SourceSet) (name : String) : Option String :=
  (s.sources.find? (·.name == name)).map (·.text)

/-- Parse every file in order. -/
def parseAll (s : SourceSet) : Except BuildError (List (String × Syntax.SourceFile)) :=
  s.sources.mapM fun f =>
    match Syntax.parse f.text with
    | .ok file => .ok (f.name, file)
    | .error es => .error (.parse f.name es)

/-- Parse and compile every file into class records. -/
def compile (s : SourceSet) : Except BuildError (List ClassRecord) := do
  compileProgram (← s.parseAll) s.options

end SourceSet

end ClassCompiler
