import ClassCompiler.Program.Error
import ClassCompiler.Source.ParseError

/-!
# Build errors

The first fault of a build and the file it was found in: the parse errors of
a file, a registration error, or a compilation error. Its message names the
file; its rendering, as the command line prints it, adds the position and, for
parse errors, the source line with a marker.
-/

namespace ClassCompiler

/-- Why a build stopped. -/
inductive BuildError where
  | parse (file : String) (errors : List ParseError)
  | registration (file : String) (error : RegistrationError)
  | compilation (file : String) (error : CompilationError)
  deriving Repr

namespace BuildError

def file : BuildError → String
  | .parse f _ | .registration f _ | .compilation f _ => f

/-- The name of the kind of failure. -/
def variantName : BuildError → String
  | .parse .. => "Parse"
  | .registration .. => "Registration"
  | .compilation .. => "Compilation"

def message : BuildError → String
  | .parse f es => f ++ ":\n" ++ ParseError.listText es
  | .registration f e => f ++ ": " ++ e.message
  | .compilation f e => f ++ ": " ++ e.message

/-- The report for the terminal; `source` gives the text of a file by name. -/
def render (err : BuildError) (source : String → Option String) : String :=
  match err with
  | .parse f es =>
    let text := (source f).getD ""
    "\n".intercalate (es.map fun e => "error: " ++ f ++ ": " ++ e.render text)
  | .compilation f e =>
    if e.span.line == 0 then "error: " ++ f ++ ": " ++ e.message
    else "error: " ++ f ++ ":" ++ e.span.position ++ ": " ++ e.message
  | .registration f e => "error: " ++ f ++ ":" ++ e.span.position ++ ": " ++ e.message

end BuildError

end ClassCompiler
