import MemoryHierarchy.Compiler
import MemoryHierarchy.Configuration.Document

/-!
# The command line

Arguments are read into a `Command` from left to right, and the first that cannot be read is an
error of usage. `run` carries a command out on a file system and returns what is printed, the exit
code, and the files as they are afterwards.
-/

namespace MemoryHierarchy

/-- What is asked for on the command line. Whatever is not asked for has the value of a command
without arguments. -/
structure Command where
  configs : List Path := []
  options : Option Path := none
  outputDirectory : Option Path := none
  buildId : Option String := none
  objectDirectory : Option Path := none
  moduleRoot : Option Path := none
  directories : ModuleDirectories := {}
  compileAll : Bool := false
  check : Bool := false
  dumpResolved : Bool := false
  verbosity : Nat := 0
deriving DecidableEq

/-- Options with a value. -/
inductive ValueOption where
  | options
  | outputDirectory
  | buildId
  | objectDirectory
  | moduleRoot
  | directory (kind : ModuleKind)
deriving DecidableEq

/-- Options without a value. -/
inductive Flag where
  | compileAll
  | check
  | dumpResolved
  | verbose
  | help
  | version
deriving DecidableEq

/-- An option by its name. The name decides whether a value belongs to it. -/
inductive OptionName where
  | withValue (option : ValueOption)
  | flag (flag : Flag)
deriving DecidableEq

/-- Why arguments do not ask for a run. -/
inductive Refusal where
  /-- An argument cannot be read, or the arguments do not go together. -/
  | usage
  | help
  | version
deriving DecidableEq

/-- An option by the name behind two dashes. -/
def OptionName.ofLong? : String → Option OptionName
  | "options" => some (.withValue .options)
  | "output-dir" => some (.withValue .outputDirectory)
  | "build-id" => some (.withValue .buildId)
  | "objdir" => some (.withValue .objectDirectory)
  | "module-root" => some (.withValue .moduleRoot)
  | "branch-dir" => some (.withValue (.directory .branch))
  | "btb-dir" => some (.withValue (.directory .btb))
  | "prefetcher-dir" => some (.withValue (.directory .prefetcher))
  | "replacement-dir" => some (.withValue (.directory .replacement))
  | "compile-all-modules" => some (.flag .compileAll)
  | "check" => some (.flag .check)
  | "dump-resolved" => some (.flag .dumpResolved)
  | "verbose" => some (.flag .verbose)
  | "help" => some (.flag .help)
  | "version" => some (.flag .version)
  | _ => none

/-- An option by the letter behind one dash. -/
def OptionName.ofShort? : Char → Option OptionName
  | 'o' => some (.withValue .outputDirectory)
  | 'v' => some (.flag .verbose)
  | 'h' => some (.flag .help)
  | 'V' => some (.flag .version)
  | _ => none

namespace Command

/-- A path of the command line, which is not empty. An empty one is an error of usage. -/
def path (text : String) : Except Refusal Path := if text = "" then .error .usage else .ok ⟨text⟩

/-- A value for an option that may be given once. A second one is an error of usage. -/
def once {α : Type} (present : Option α) (value : α) : Except Refusal (Option α) :=
  if present.isSome then .error .usage else .ok (some value)

/-- Adds a directory of a category. -/
def addDirectory (d : ModuleDirectories) (p : Path) : ModuleKind → ModuleDirectories
  | .branch => { d with branch := d.branch ++ [p] }
  | .btb => { d with btb := d.btb ++ [p] }
  | .prefetcher => { d with prefetcher := d.prefetcher ++ [p] }
  | .replacement => { d with replacement := d.replacement ++ [p] }

/-- Takes an option with its value. -/
def takeValue (c : Command) (value : String) : ValueOption → Except Refusal Command
  | .options => do
    pure { c with options := ← once c.options (← path value) }
  | .outputDirectory => do
    pure { c with outputDirectory := ← once c.outputDirectory (← path value) }
  | .buildId => do
    pure { c with buildId := ← once c.buildId value }
  | .objectDirectory => do
    pure { c with objectDirectory := ← once c.objectDirectory (← path value) }
  | .moduleRoot => do
    pure { c with moduleRoot := ← once c.moduleRoot (← path value) }
  | .directory kind => do
    pure { c with directories := addDirectory c.directories (← path value) kind }

/-- Takes an option without a value. -/
def takeFlag (c : Command) : Flag → Except Refusal Command
  | .compileAll => if c.compileAll then .error .usage else .ok { c with compileAll := true }
  | .check => if c.check then .error .usage else .ok { c with check := true }
  | .dumpResolved =>
    if c.dumpResolved then .error .usage else .ok { c with dumpResolved := true }
  | .verbose => .ok { c with verbosity := c.verbosity + 1 }
  | .help => .error .help
  | .version => .error .version

/-- Takes a configuration. -/
def takeConfig (c : Command) (text : String) : Except Refusal Command := do
  pure { c with configs := c.configs ++ [← path text] }

/-- A command, with the option that waits for its value. -/
structure Reading where
  command : Command
  pending : Option ValueOption

/-- Takes the letters of an argument behind one dash. The letter of an option with a value ends
them: what follows is the value, with or without an equals sign, or the value is the next
argument. -/
def takeLetters (c : Command) : List Char → Except Refusal Reading
  | [] => .ok ⟨c, none⟩
  | letter :: rest =>
    match OptionName.ofShort? letter with
    | none => .error .usage
    | some (.flag flag) => do takeLetters (← c.takeFlag flag) rest
    | some (.withValue option) =>
      match rest with
      | [] => .ok ⟨c, some option⟩
      | '=' :: value => do pure ⟨← c.takeValue (String.ofList value) option, none⟩
      | value => do pure ⟨← c.takeValue (String.ofList value) option, none⟩

/-- Takes an argument behind two dashes: a name, and perhaps an equals sign with a value. -/
def takeLong (c : Command) (text : List Char) : Except Refusal Reading :=
  let name := String.ofList (text.takeWhile (· ≠ '='))
  match OptionName.ofLong? name, text.dropWhile (· ≠ '=') with
  | none, _ => .error .usage
  | some (.flag flag), [] => do pure ⟨← c.takeFlag flag, none⟩
  | some (.flag _), _ :: _ => .error .usage
  | some (.withValue option), [] => .ok ⟨c, some option⟩
  | some (.withValue option), _ :: value => do
    pure ⟨← c.takeValue (String.ofList value) option, none⟩

/-- Reads the arguments behind a command. An argument with a dash in front is no value, unless it is
the dash alone; behind two dashes alone there are configurations only. -/
def read (c : Command) : Option ValueOption → List String → Except Refusal Command
  | none, [] => .ok c
  | some _, [] => .error .usage
  | pending, argument :: rest =>
    match pending, argument.toList with
    | some _, '-' :: _ :: _ => .error .usage
    | some option, _ => do read (← c.takeValue argument option) none rest
    | none, ['-', '-'] => rest.foldlM takeConfig c
    | none, '-' :: '-' :: text => do
      let r ← c.takeLong text
      read r.command r.pending rest
    | none, '-' :: letter :: letters => do
      let r ← c.takeLetters (letter :: letters)
      read r.command r.pending rest
    | none, _ => do read (← c.takeConfig argument) none rest

/-- Reads arguments. At least one configuration is needed, and not both of `--check` and
`--dump-resolved`. -/
def ofArguments (arguments : List String) : Except Refusal Command := do
  let c ← read {} none arguments
  if c.configs.isEmpty || (c.check && c.dumpResolved) then throw .usage
  pure c

/-- The options of a command: those of its options file or the default ones, with what the command
line says over them. -/
def compilerOptions (c : Command) (fs : FileSystem) : Except CompileError Options := do
  let options ←
    match c.options with
    | some path => Options.load fs path
    | none => pure {}
  pure {
    moduleRoot := c.moduleRoot.getD options.moduleRoot
    objectDirectory := c.objectDirectory.getD options.objectDirectory
    buildId := c.buildId.or options.buildId
    compileAll := options.compileAll || c.compileAll
    builtinDirectories := options.builtinDirectories
    userDirectories := options.userDirectories.extend c.directories }

end Command

/-- What a run of the command line does. -/
structure Outcome where
  exitCode : Nat
  stdout : String
  stderr : String
  files : FileSystem

namespace Outcome

/-- Lines as they are printed. -/
def printed (lines : List String) : String := String.join (lines.map (· ++ "\n"))

/-- A run that succeeds. -/
def success (fs : FileSystem) (lines : List String) : Outcome := ⟨0, printed lines, "", fs⟩

/-- The lines that report an error. -/
def errorLines : CompileError → List String
  | .invalid diagnostics =>
    diagnostics.map Diagnostic.message
      ++ ["[!] " ++ toString diagnostics.length ++ " problem(s) found"]
  | e => ["[!] " ++ e.message]

/-- A run that fails. -/
def failure (fs : FileSystem) (e : CompileError) : Outcome := ⟨1, "", printed (errorLines e), fs⟩

end Outcome

namespace Command

/-- Carries out a command on a resolved configuration: prints it, checks it, or writes its texts.
Printing comes first where several are asked for, and only the last one changes any file. -/
def finish (c : Command) (fs : FileSystem) (r : ResolvedConfiguration) : Outcome :=
  if c.dumpResolved then .success fs [(Json.object r.document).pretty]
  else if c.check then
    if r.diagnostics.isEmpty then .success fs ["[*] " ++ r.environment.buildId ++ ": ok"]
    else .failure fs (.invalid r.diagnostics)
  else
    match r.emit with
    | .error e => .failure fs e
    | .ok artifacts =>
      match artifacts.writeTo fs (c.outputDirectory.getD ⟨"."⟩) with
      | (written, none) => .success written.files (written.paths.map ("[*] wrote " ++ ·.text))
      | (written, some e) => .failure written.files e

/-- Carries out a command. -/
def run (c : Command) (fs : FileSystem) : Outcome :=
  let resolved : Except CompileError ResolvedConfiguration := do
    let options ← c.compilerOptions fs
    let docs ← loadDocuments fs c.configs
    let resolution ← resolveDocuments fs options docs
    pure resolution.configuration
  match resolved with
  | .error e => .failure fs e
  | .ok r => c.finish fs r

end Command

/-- The name and version of the program. -/
def versionLine : String := "topogen 0.4.0"

/-- How the program is called. -/
def usageLine : String := "Usage: topogen [OPTIONS] <CONFIG>..."

/-- Runs the program with arguments on a file system, and gives the file system as it is afterwards.
-/
def runArguments (arguments : List String) (fs : FileSystem) : Outcome :=
  match Command.ofArguments arguments with
  | .ok c => c.run fs
  | .error .version => .success fs [versionLine]
  | .error .help => .success fs [usageLine]
  | .error .usage => ⟨2, "", Outcome.printed [usageLine], fs⟩

end MemoryHierarchy
