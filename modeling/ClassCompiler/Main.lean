import ClassCompiler.CommandLine
import ClassCompiler.Build.Sources

/-!
# The `atypical` program

Reads the source files named on the command line and runs the command:
`check` compiles them, `dump` prints the compiled classes with their code, and
`build` writes one class file per class under the output directory, one
directory per package segment. Errors go to standard error, rendered with the
file and position they concern.
-/

namespace ClassCompiler

namespace Program

/-- The help text. -/
def usage : String :=
  "Compile Atypical sources to class files\n\n" ++
  "Usage: atypical <COMMAND>\n\n" ++
  "Commands:\n" ++
  "  build  Compile source files and write one class file per type\n" ++
  "  check  Type check source files without writing anything\n" ++
  "  dump   Print the compiled classes and their instructions\n" ++
  "  help   Print this message or the help of the given subcommand(s)\n\n" ++
  "Options:\n" ++
  "  -h, --help     Print help\n" ++
  "  -V, --version  Print version\n"

/-- The directory part of a relative path. -/
def parentOf (path : String) : String :=
  "/".intercalate (path.splitOn "/").dropLast

/-- Read the files into a source set. -/
def load (inv : CommandLine.Invocation) : ExceptT String IO SourceSet := do
  let mut s := SourceSet.empty ⟨inv.traitCasts, inv.lineNumbers⟩
  for f in inv.files do
    let text ← (IO.FS.readFile f).toBaseIO
    match text with
    | .ok t => s := s.add f t
    | .error e => throw ("error: " ++ f ++ ": " ++ toString e)
  return s

/-- Run an invocation; the exit code. -/
def run (inv : CommandLine.Invocation) : IO UInt32 := do
  let s ← match ← (load inv).run with
    | .ok s => pure s
    | .error msg => do IO.eprintln msg; return 1
  match s.compile with
  | .error e =>
    IO.eprintln (e.render s.source?)
    return 1
  | .ok classes =>
    match inv.command with
    | .check => return 0
    | .dump =>
      IO.print ("\n".intercalate (classes.map ClassRecord.text))
      return 0
    | .build =>
      for c in classes do
        match c.write inv.classVersion with
        | .error e =>
          IO.eprintln ("error: class " ++ c.name ++ ": " ++ e.message)
          return 1
        | .ok bytes =>
          let path := ClassRecord.outputPath inv.outDir c.name
          let written ← (do
            IO.FS.createDirAll (parentOf path)
            IO.FS.writeBinFile path (ByteArray.mk bytes)).toBaseIO
          if let .error e := written then
            IO.eprintln ("error: " ++ path ++ ": " ++ toString e)
            return 1
      return 0

/-- Read the arguments and run; the exit code. -/
def entry (args : List String) : IO UInt32 := do
  match CommandLine.parse args with
  | .ok inv => run inv
  | .error .displayHelp | .error .displayHelpOnMissing =>
    IO.print usage
    return (if args.isEmpty then 2 else 0)
  | .error .displayVersion =>
    IO.println "atypical 0.1.0"
    return 0
  | .error e =>
    IO.eprintln ("error: " ++ e.kindName)
    IO.eprintln usage
    return 2

end Program

end ClassCompiler

def main (args : List String) : IO UInt32 :=
  ClassCompiler.Program.entry args
