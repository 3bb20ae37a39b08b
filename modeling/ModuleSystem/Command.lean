import ModuleSystem.Command.Flag
import ModuleSystem.Compile.Report
import ModuleSystem.Config
import ModuleSystem.ExitCode
import ModuleSystem.Project

/-!
# Commands

The command line `esmloader`: what a list of arguments does in given surroundings.  The command is
found first, then its flags are read, its arguments counted and the configuration loaded; only then
the command runs.  Diagnostics go to the log; any other failure is told in one line.
-/

namespace ModuleSystem

/-- The commands. -/
inductive Command where
  | compile
  | resolve
  | run
  | version
  /-- Shows how the command line is used. -/
  | help
deriving DecidableEq, Repr

/-- What a command finds when it starts. -/
structure Surroundings where
  disk : Disk
  environment : List (Text × Text) := []
  stdin : Text := []

/-- What a command leaves. -/
structure Outcome where
  /-- The exit code. -/
  code : Int := 0
  stdout : Text := []
  /-- The line that tells of a failure, unless the log tells of it. -/
  stderr : Text := []
  /-- Diagnostics. -/
  log : Text := []
deriving DecidableEq, Repr

namespace Command

/-- The name that the commands are found under. -/
def program : Text := "esmloader"

/-- The version that is printed. -/
def versionNumber : Text := "0.1.0"

/-- How the command line is used. -/
def usage : Text :=
  "Load and run ECMAScript modules

Usage:
  esmloader compile [file]       Print the script a module compiles to
  esmloader resolve <specifier>  Print the file a specifier resolves to
  esmloader run <file>           Import a module and run it until it settles
  esmloader version              Print the version
"

/-- The commands by name. -/
def names : List (Text × Command) :=
  [("compile", .compile), ("resolve", .resolve), ("run", .run), ("version", .version),
    ("completion", .help), ("help", .help)]

/-- The flags of every command. -/
def sharedFlags : List Flag :=
  [{ name := "config", kind := .text }, { name := "cwd", kind := .text },
    { name := "module-root", kind := .texts }, { name := "resolve-extensions", kind := .record },
    { name := "verbose", kind := .switch, letter := some 118 }, { name := "color", kind := .text },
    { name := "log-level", kind := .text }, { name := "trace", kind := .text },
    { name := "cpuprofile", kind := .text }]

/-- The flag that asks for help. -/
def helpFlag : Flag := { name := "help", kind := .switch, letter := some 104 }

/-- The flags of one command. -/
def ownFlags : Command → List Flag
  | .compile =>
    [{ name := "loader", kind := .text }, { name := "sourcefile", kind := .text },
      { name := "error-limit", kind := .integer }]
  | .resolve => [{ name := "from", kind := .text }]
  | .run => [{ name := "timeout", kind := .duration }]
  | _ => []

/-! ### Finding the command -/

/-- One row of the table of distances: the distances from the beginnings of `t` to a word that is
longer by the byte `b` than the one with the distances `above`. -/
def distanceRow (b : UInt8) : Text → List Nat → Nat → List Nat
  | c :: t, diagonal :: up :: above, left =>
    let d := min (min (up + 1) (left + 1)) (diagonal + if b = c then 0 else 1)
    d :: distanceRow b t (up :: above) d
  | _, _, _ => []

/-- The number of bytes to insert, remove or exchange that make one word out of another. -/
def distance (s t : Text) : Nat :=
  let start := List.range (t.length + 1)
  let row := s.foldl (fun row b =>
    let first := row.headD 0 + 1
    first :: distanceRow b t row first) start
  row.getLastD 0

/-- The commands that a word may have been meant for. -/
def suggestions (word : Text) : List Text :=
  let word := word.toLower
  (names.map (·.1)).filter fun name =>
    name ≠ Text.ofString "help" && (distance word name ≤ 2 || name.startsWith word)

/-- The error for a word that is no command. -/
def unknownCommand (word : Text) : Failure :=
  let hint := match suggestions word with
    | [] => []
    | ns => Text.ofString "\n\nDid you mean this?\n" ++ ns.flatMap fun n => 9 :: n ++ [10]
  .plain ("unknown command " ++ Quoted.display word ++ Text.ofString " for "
    ++ Quoted.display program ++ hint)

/-- The command that arguments ask for, and the arguments that are left for it. -/
def find (args : List Text) : Except Failure (Command × List Text) :=
  match CommandLine.operands sharedFlags args with
  | [] => .ok (.help, args)
  | word :: _ =>
    match names.lookup word with
    | some c => .ok (c, CommandLine.without sharedFlags word args)
    | none => .error (unknownCommand word)

/-! ### Arguments and configuration -/

/-- What is wrong with the number of arguments. -/
def misfit? (c : Command) (args : List Text) : Option Text :=
  let received : Text := ", received " ++ Text.ofNat args.length
  match c with
  | .compile => if 1 < args.length then some ("accepts at most 1 arg(s)" ++ received) else none
  | .version =>
    args.head?.map fun a =>
      "unknown command " ++ Quoted.display a ++ Text.ofString " for "
        ++ Quoted.display (program ++ Text.ofString " version")
  | .help => none
  | _ => if args.length = 1 then none else some ("accepts 1 arg(s)" ++ received)

/-- The settings that flags give. -/
def flagSettings (line : CommandLine) : List (Text × ConfigValue) :=
  let text (name : Text) := (line.text? name).map fun t => (name, ConfigValue.text t)
  let texts (flag name : Text) :=
    (line.texts? flag).map fun ts => (name, ConfigValue.list ((Record.reread ts).map .text))
  [text "cwd", text "color", text "log-level",
    (line.switch? "verbose").map fun b => (Text.ofString "verbose", ConfigValue.flag b),
    texts "module-root" "module-roots",
    texts "resolve-extensions" "resolve-extensions"].filterMap id

/-- A failure of a command, and what it printed before. -/
structure Failed where
  failure : Failure
  log : Text := []

/-- Diagnostics as the log shows them. -/
def report (o : Diagnostic.ConsoleOptions) (ds : List Diagnostic) : Text :=
  (ds.foldl Diagnostic.Console.add { options := o }).finish.printed

/-- How the log of a command is printed. -/
def console (o : Options) : Diagnostic.ConsoleOptions :=
  { excerpt := true, errorLimit := 10, color := o.color, level := o.logLevel }

/-- The options of a command. -/
def options (w : Surroundings) (line : CommandLine) : Except Failed Options :=
  let config : Config := { flags := flagSettings line, environment := w.environment }
  match config.load w.disk ((line.text? "config").getD []) with
  | .ok o => .ok o
  | .error e =>
    .error
      { failure := .reported (.coded Failure.usageCode (.plain e.message))
        log := report { excerpt := true, errorLimit := 10 } [⟨.error, e.message, none⟩] }

/-- The surroundings with the files that record how the program itself runs, which stay empty while
the command runs. -/
def withRecordings (w : Surroundings) (line : CommandLine) : Except Failed Surroundings :=
  let create (w : Surroundings) (flag : Text) : Except Failed Surroundings :=
    match line.text? flag with
    | none => .ok w
    | some [] => .ok w
    | some path =>
      match w.disk.create path with
      | .ok disk => .ok { w with disk }
      | .error e =>
        .error { failure := .wrapped ("failed to create " ++ flag ++ Text.ofString " file")
                  (.plain e.message) }
  do create (← create w "trace") "cpuprofile"

/-! ### The commands -/

/-- What a command prints when it succeeds. -/
structure Printed where
  stdout : Text := []
  log : Text := []

/-- A failure that the flags or arguments are to blame for. -/
def misused (message : Text) : Failed := { failure := .coded Failure.usageCode (.plain message) }

/-- A path counted from the working directory. -/
def absolute (o : Options) (path : Text) : Text :=
  if Path.isRooted path then path else Path.join [o.cwd, path]

/-- The format in which a source is compiled. -/
def formatOf (o : Options) (line : CommandLine) : Except Failed Format :=
  match (line.text? "loader").getD [], line.arguments with
  | [], [] => .ok .script
  | [], path :: _ =>
    match o.formatOf path with
    | some f => .ok f
    | none =>
      .error (misused ("No loader is configured for " ++ Quoted.display (Path.ext path)
        ++ Text.ofString " files (use --loader)"))
  | word, _ =>
    match Format.parse word with
    | .ok f => .ok f
    | .error e => .error (misused e.message)

/-- Prints the script of a file, or of what stands on the standard input. -/
def runCompile (w : Surroundings) (o : Options) (line : CommandLine) : Except Failed Printed := do
  let contents ← match line.arguments with
    | [] => .ok w.stdin
    | path :: _ =>
      match w.disk.contents (absolute o path) with
      | .ok contents => .ok contents
      | .error e => .error { failure := .plain e.message }
  let format ← formatOf o line
  let chosen := (line.text? "sourcefile").getD []
  let given := if chosen.isEmpty then line.arguments.headD [] else chosen
  let name := if given.isEmpty then Text.ofString "<stdin>" else given
  let shown := CompileReport.ofSource
    { console o with errorLimit := (line.integer? "error-limit").getD 10 }
    { key := name, name, contents } (some format)
  if shown.errors.isEmpty then .ok { stdout := shown.code ++ [10], log := shown.printed }
  else .error { failure := .reported (.plain "compile failed"), log := shown.printed }

/-- A failed import as a failure of the command. -/
def importFailure (o : Options) (e : ModuleError) : Failed :=
  let ds := match e with
    | .compile e => e.diagnostics
    | .link e => [e.diagnostic]
    | e => [⟨.error, e.message, none⟩]
  let failure := match e with
    | .notFound e => Failure.notFound e
    | .canceled => .canceled
    | e => .plain e.message
  { failure := .reported failure, log := report (console o) ds }

/-- Prints the file that a specifier leads to. -/
def runResolve (w : Surroundings) (o : Options) (line : CommandLine) : Except Failed Printed :=
  let importer := (line.text? "from").getD []
  let importer := if importer.isEmpty then [] else absolute o importer
  match Project.ofDisk w.disk (.ofOptions o) with
  | .error e =>
    .error
      { failure := .reported (.plain e.message)
        log := report (console o) [⟨.error, e.message, none⟩] }
  | .ok p =>
    match p.resolve (line.arguments.headD []) importer with
    | .ok path => .ok { stdout := path ++ [10] }
    | .error e => .error (importFailure o (.notFound e))

/-- A time limit that is over before anything can run: up to a microsecond. -/
def isOverAtOnce (limit : Int) : Bool := 0 < limit && limit ≤ 1000

/-- Imports a module. -/
def runRun (w : Surroundings) (o : Options) (line : CommandLine) : Except Failed Printed :=
  match Project.ofDisk w.disk (.ofOptions o) with
  | .error e => .error (misused e.message)
  | .ok p =>
    if isOverAtOnce ((line.integer? "timeout").getD 0) then
      let failure := Failure.deadline
      .error { failure := .reported failure
               log := report (console o) [⟨.error, failure.message, none⟩] }
    else
      match (p.importModule p.loader (absolute o (line.arguments.headD []))).2 with
      | some (.ok _) => .ok {}
      | some (.error (.error e)) => .error (importFailure o e)
      | _ => .error { failure := .plain "Internal error" }

/-- Carries a command out. -/
def perform (w : Surroundings) (o : Options) (line : CommandLine) :
    Command → Except Failed Printed
  | .compile => runCompile w o line
  | .resolve => runResolve w o line
  | .run => runRun w o line
  | .version => .ok { stdout := versionNumber ++ [10] }
  | .help => .ok { stdout := usage }

/-- Reads the arguments of a command and carries it out. -/
def start (w : Surroundings) (c : Command) (args : List Text) : Except Failed Printed := do
  let line ← match CommandLine.read (c.ownFlags ++ helpFlag :: sharedFlags) args with
    | .ok line => .ok line
    | .error e => .error (misused e.message)
  if c = .help || line.switch? "help" = some true then .ok { stdout := usage }
  else
    match c.misfit? line.arguments with
    | some message => .error (misused message)
    | none =>
      let o ← options w line
      c.perform (← withRecordings w line) o line

/-- The command line asks for the standard input to be compiled. -/
def readsStdin (args : List Text) : Bool :=
  match find args with
  | .ok (.compile, args) =>
    match CommandLine.read (ownFlags .compile ++ helpFlag :: sharedFlags) args with
    | .ok line => line.arguments.isEmpty
    | .error _ => false
  | _ => false

/-- What a failure leaves. -/
def Failed.outcome (f : Failed) : Outcome :=
  let told := f.failure.chain.any fun | .reported _ => true | _ => false
  { code := Failure.exitCode (some f.failure)
    stderr := if told then [] else Text.ofString "error: " ++ f.failure.message ++ [10]
    log := f.log }

/-- What a command line does. -/
def execute (w : Surroundings) (args : List Text) : Outcome :=
  match find args with
  | .error failure => Failed.outcome { failure }
  | .ok (c, args) =>
    match start w c args with
    | .ok printed => { stdout := printed.stdout, log := printed.log }
    | .error f => f.outcome

end Command

end ModuleSystem
