import ClassCompiler.Codegen.Context
import ClassCompiler.Source.Literal

/-!
# The command line

`build`, `check` and `dump`, each taking source files and the options
`--trait-casts reflective|static` and `--no-line-numbers`; `build` also takes
`-o DIR` or `--out-dir DIR` (default `.`) and `--class-version N` (16 bits, default 49).

Arguments are read the way the usual argument parser of these tools reads
them:

* `--` makes every later argument a file; `-` alone is a value;
* an option's value is the next argument unless that starts with `-`, or it
  is attached (`--out-dir=DIR`, `-oDIR`, `-o=DIR`);
* an option given twice is an `ArgumentConflict`;
* values are checked when the next option is read or at the end, so a bad
  value is reported after an unknown argument that follows it;
* `-h`/`--help` asks for help, `-V`/`--version` (before the command) for the
  version, and `help [COMMAND]` for help on a command.
-/

namespace ClassCompiler

namespace CommandLine

/-- The three commands. -/
inductive Command where
  | build
  | check
  | dump
  deriving DecidableEq, Repr, Inhabited

def Command.name : Command → String
  | .build => "build"
  | .check => "check"
  | .dump => "dump"

def Command.ofName? : String → Option Command
  | "build" => some .build
  | "check" => some .check
  | "dump" => some .dump
  | _ => none

/-- A command with its arguments. -/
structure Invocation where
  command : Command
  files : List String
  traitCasts : TraitCastMode
  lineNumbers : Bool
  outDir : String
  classVersion : Nat
  deriving DecidableEq, Repr, Inhabited

/-- Why the arguments were not accepted, or the help or version asked for. -/
inductive ArgError where
  | missingRequiredArgument
  | invalidValue
  | valueValidation
  | unknownArgument
  | invalidSubcommand
  | argumentConflict
  | tooManyValues
  | displayHelp
  | displayVersion
  | displayHelpOnMissing
  deriving DecidableEq, Repr, Inhabited

def ArgError.kindName : ArgError → String
  | .missingRequiredArgument => "MissingRequiredArgument"
  | .invalidValue => "InvalidValue"
  | .valueValidation => "ValueValidation"
  | .unknownArgument => "UnknownArgument"
  | .invalidSubcommand => "InvalidSubcommand"
  | .argumentConflict => "ArgumentConflict"
  | .tooManyValues => "TooManyValues"
  | .displayHelp => "DisplayHelp"
  | .displayVersion => "DisplayVersion"
  | .displayHelpOnMissing => "DisplayHelpOnMissingArgumentOrSubcommand"

/-- The options that take a value. -/
inductive Valued where
  | traitCasts
  | outDir
  | classVersion
  deriving DecidableEq, Repr

/-- Values read but not yet checked: files, or an option and its value (none
    yet while the value is awaited). -/
inductive Pending where
  | files (vals : List String)
  | option (o : Valued) (val : Option String)
  deriving DecidableEq, Repr

/-- What a command's arguments have given so far. -/
structure Parsed where
  command : Command
  files : List String
  traitCasts : Option TraitCastMode
  noLineNumbers : Bool
  outDir : Option String
  classVersion : Option Nat
  pending : Option Pending
  /-- After `--`: every argument is a file. -/
  escaped : Bool
  deriving Repr

/-- The options a command has, by long name. -/
def valuedOption? (c : Command) : String → Option Valued
  | "trait-casts" => some .traitCasts
  | "out-dir" => if c == .build then some .outDir else none
  | "class-version" => if c == .build then some .classVersion else none
  | _ => none

/-- A class version: an optional sign and decimal digits, from 0 to 65535. -/
def classVersion? (s : String) : Option Nat :=
  let digits (ds : List Char) : Option Int :=
    if !ds.isEmpty && ds.all Char.isDigit then some (Syntax.digitsValue ds) else none
  let v := match s.toList with
    | '+' :: ds => digits ds
    | '-' :: ds => (digits ds).map (- ·)
    | ds => digits ds
  match v with
  | some n => if 0 ≤ n ∧ n ≤ 65535 then some n.toNat else none
  | none => none

namespace Parsed

def start (c : Command) : Parsed := ⟨c, [], none, false, none, none, none, false⟩

/-- Check and record an option's value. -/
def setOption (p : Parsed) (o : Valued) (v : String) : Except ArgError Parsed :=
  match o with
  | .traitCasts =>
    if p.traitCasts.isSome then .error .argumentConflict
    else match TraitCastMode.ofName v with
      | .ok m => .ok { p with traitCasts := some m }
      | .error _ => .error .invalidValue
  | .outDir =>
    if p.outDir.isSome then .error .argumentConflict
    else if v.isEmpty then .error .invalidValue
    else .ok { p with outDir := some v }
  | .classVersion =>
    if p.classVersion.isSome then .error .argumentConflict
    else match classVersion? v with
      | some n => .ok { p with classVersion := some n }
      | none => .error .valueValidation

/-- Check and record the pending values. -/
def settle (p : Parsed) : Except ArgError Parsed :=
  let p' := { p with pending := none }
  match p.pending with
  | none => .ok p
  | some (.files vs) =>
    if vs.any String.isEmpty then .error .invalidValue else .ok { p' with files := p.files ++ vs }
  | some (.option _ none) => .error .invalidValue
  | some (.option o (some v)) => p'.setOption o v

/-- A file argument. -/
def addFile (p : Parsed) (f : String) : Except ArgError Parsed :=
  match p.pending with
  | some (.files vs) => .ok { p with pending := some (.files (vs ++ [f])) }
  | _ => do
    let p ← p.settle
    return { p with pending := some (.files [f]) }

/-- An option that takes a value, with its value if attached. -/
def option (p : Parsed) (o : Valued) (attached : Option String) : Except ArgError Parsed := do
  let p ← p.settle
  match attached with
  | some v => p.setOption o v
  | none => return { p with pending := some (.option o none) }

/-- `--no-line-numbers`. -/
def flag (p : Parsed) : Except ArgError Parsed := do
  let p ← p.settle
  if p.noLineNumbers then throw .argumentConflict
  return { p with noLineNumbers := true }

/-- Read one argument of a command. -/
def step (p : Parsed) (arg : String) : Except ArgError Parsed :=
  if p.escaped then p.addFile arg
  else if arg == "--" then do
    let p ← p.settle
    return { p with escaped := true }
  else if arg.startsWith "--" then
    let body := String.ofList (arg.toList.drop 2)
    let (name, attached) := match body.splitOn "=" with
      | [n] => (n, none)
      | n :: rest => (n, some ("=".intercalate rest))
      | [] => (body, none)
    match name with
    | "help" => if attached.isSome then .error .tooManyValues else do
      let _ ← p.settle
      throw .displayHelp
    | "no-line-numbers" => if attached.isSome then .error .tooManyValues else p.flag
    | _ =>
      match valuedOption? p.command name with
      | some o => p.option o attached
      | none => .error .unknownArgument
  else if arg.startsWith "-" && arg.length > 1 then
    match arg.toList.drop 1 with
    | 'h' :: _ => do
      let _ ← p.settle
      throw .displayHelp
    | 'o' :: rest =>
      if p.command == .build then
        let attached := match rest with
          | [] => none
          | '=' :: v => some (String.ofList v)
          | v => some (String.ofList v)
        p.option .outDir attached
      else .error .unknownArgument
    | _ => .error .unknownArgument
  else
    match p.pending with
    | some (.option o none) => .ok { p with pending := some (.option o (some arg)) }
    | _ => p.addFile arg

/-- The invocation once every argument is read. -/
def finish (p : Parsed) : Except ArgError Invocation := do
  let p ← p.settle
  if p.files.isEmpty then throw .missingRequiredArgument
  return { command := p.command, files := p.files,
           traitCasts := p.traitCasts.getD .reflective, lineNumbers := !p.noLineNumbers,
           outDir := p.outDir.getD ".", classVersion := p.classVersion.getD 49 }

end Parsed

/-- The arguments of a command. -/
def parseCommand (c : Command) (args : List String) : Except ArgError Invocation := do
  let p ← args.foldlM Parsed.step (Parsed.start c)
  p.finish

/-- `help` followed by a path of commands: help on it, if every one exists. -/
def helpPath : List String → Except ArgError Invocation
  | [] => .error .displayHelp
  | [c] => if c == "help" || (Command.ofName? c).isSome then .error .displayHelp
    else .error .invalidSubcommand
  | _ :: _ :: _ => .error .invalidSubcommand

/-- Whether a word names a command, `help` included. -/
def isCommandName (s : String) : Bool := s == "help" || (Command.ofName? s).isSome

/-- Read the arguments after the program name; `escaped` is set after `--`. -/
def parseWith (escaped : Bool) : List String → Except ArgError Invocation
  | [] => .error .displayHelpOnMissing
  | arg :: rest =>
    if escaped then .error (if isCommandName arg then .unknownArgument else .invalidSubcommand)
    else match Command.ofName? arg with
    | some c => parseCommand c rest
    | none =>
      if arg == "help" then helpPath rest
      else if arg == "--" then parseWith true rest
      else if arg.startsWith "--" then
        match arg.drop 2 |>.toString with
        | "help" => .error .displayHelp
        | "version" => .error .displayVersion
        | s => if s.startsWith "help=" || s.startsWith "version=" then .error .tooManyValues
          else .error .unknownArgument
      else if arg.startsWith "-" && arg.length > 1 then
        match arg.toList.drop 1 with
        | 'h' :: _ => .error .displayHelp
        | 'V' :: _ => .error .displayVersion
        | _ => .error .unknownArgument
      else .error .invalidSubcommand

/-- Read the arguments after the program name. -/
def parse (args : List String) : Except ArgError Invocation := parseWith false args

end CommandLine

end ClassCompiler
