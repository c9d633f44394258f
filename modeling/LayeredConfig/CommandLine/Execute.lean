import LayeredConfig.CommandLine.Arguments
import LayeredConfig.Logging.Configure
import LayeredConfig.Run.Artifacts
import LayeredConfig.Run.Start

/-!
# Executing the command

The command builds the configuration of a run, prints it, stores the artifacts of the run in its directory, and
then sets up the log of the job and lists the configuration there. Until then a handler of its own writes the
records of the requested level to the error stream.
-/

namespace LayeredConfig.CommandLine

/-- How the command ends. -/
inductive Ending where
  | done
  /-- The arguments are refused. -/
  | usage (fault : UsageFault)
  /-- An operation failed. -/
  | failed (error : Error)
  deriving DecidableEq, Repr

namespace Ending

/-- The status that the command leaves to its caller. -/
def status : Ending → Nat
  | done => 0
  | usage _ => 2
  | failed _ => 1

/-- What the command says about a failure. -/
def complaint? : Ending → Option String
  | done => none
  | usage fault => some fault.message
  | failed error => some (error.message.getD "The configuration cannot be read.")

end Ending

/-- What the command leaves: how it ended, what it printed, and the log with the files and the error stream. -/
structure Result where
  ending : Ending
  output : String
  log : Log

/-- The file that is used when none is given. -/
def defaultFile : String := "config.yaml"

/-- The record of a run without a file. -/
def noFileRecord : Record :=
  .warning "hydralite.cli"
    s!"No configuration file given and '{defaultFile}' not found; starting from an empty mapping"

/-- The files of a run. -/
def sources (store : File.Store) (given : List String) : Logged (List String) :=
  match Run.filesOf store given (some defaultFile) with
  | [] => ⟨.ok [], [noFileRecord]⟩
  | paths => .of (.ok paths)

/-- The time before a line of the log. -/
def stampOf (moment : Moment) : String :=
  let milliseconds := Moment.digits 3 (moment.microsecond / 1000)
  String.ofList (moment.write "%Y-%m-%d %H:%M:%S,".toList ++ milliseconds) ++ " - "

/-- The log that the command starts with. -/
def startingLog (store : File.Store) (stamp level : String) : Log :=
  ⟨(Level.ofText level).rank, [⟨none, none⟩], store, "", stamp⟩

/-- How a written path ends the command when it cannot be a file: a directory stands there, or it holds a null
character. The empty text leads nowhere yet, and stands for the working directory only when it is read. -/
def refusal? (store : File.Store) (path : String) : Option Ending :=
  let target := File.Path.ofText path
  if target.holdsNull then some (.failed .nullInPath)
  else if path != "" && store.isDirectory target then
    some (.usage (.refusedValue "--config" path))
  else none

/-- The help text of the command. -/
def help : String :=
  "Usage: hydralite [OPTIONS] [OVERRIDES]...\n\n"
    ++ "  Compose, override and resolve a configuration, then print it as YAML.\n\n"
    ++ "Options:\n"
    ++ "  -c, --config FILE  Configuration file (repeatable, merged left to right)\n"
    ++ "  --log-level TEXT   Console log level  [default: WARNING]\n"
    ++ "  --help             Show this message and exit.\n"

/-- Sets up the log of the job and lists the configuration there. -/
def openJobLog (output : String) (tree : Tree) (log : Log) : Result :=
  match log.configure tree with
  | (log, some e) => ⟨.failed e, output, log⟩
  | (log, none) =>
    let listing := Logging.listing tree
    let log := log.emitAll listing.log
    match listing.outcome with
    | .error e => ⟨.failed e, output, log⟩
    | .ok () => ⟨.done, output, log⟩

/-- Prints a configuration and stores the artifacts of its run. -/
def publish (overrides : List String) (directory : Option File.Path) (tree : Tree) (log : Log) :
    Result :=
  match Yaml.write tree with
  | .error e => ⟨.failed e, "", log⟩
  | .ok text =>
    let output := String.ofList text
    let stored := Run.storeArtifacts log.store tree overrides directory
    let log := ({ log with store := stored.store } : Log).emitAll stored.result.log
    match stored.result.outcome with
    | .error e => ⟨.failed e, output, log⟩
    | .ok none => ⟨.done, output, log⟩
    | .ok (some _) => openJobLog output tree log

/-- The configuration that an invocation asks for, with its run directory. -/
def configuration (surroundings : Surroundings) (store : File.Store) (invocation : Invocation) :
    Logged (Tree × Option File.Path) := do
  let paths ← sources store invocation.files
  let tree ← Run.build surroundings store paths invocation.overrides
  Run.pinDirectory store.here tree

/-- Does what an invocation asks for. -/
def perform (surroundings : Surroundings) (store : File.Store) (stamp : String)
    (invocation : Invocation) : Result :=
  let log := startingLog store stamp invocation.level
  let configured := configuration surroundings store invocation
  let log := log.emitAll configured.log
  match configured.outcome with
  | .error e => ⟨.failed e, "", log⟩
  | .ok (tree, directory) => publish invocation.overrides directory tree log

/-- Executes the command with arguments. `stamp` stands before each line of the log. -/
def execute (surroundings : Surroundings) (store : File.Store) (stamp : String)
    (arguments : List String) : Result :=
  let idle := startingLog store stamp ""
  match parse arguments with
  | .error fault => ⟨.usage fault, "", idle⟩
  | .ok invocation =>
    if invocation.help then
      ⟨.done, help, idle⟩
    else
      match invocation.files.findSome? (refusal? store) with
      | some ending => ⟨ending, "", idle⟩
      | none => perform surroundings store stamp invocation

/-- Arguments that are accepted and ask for no help are performed. -/
theorem execute_eq_perform {surroundings : Surroundings} {store : File.Store} {stamp : String}
    {arguments : List String} {invocation : Invocation} (parsed : parse arguments = .ok invocation)
    (help : invocation.help = false) (accepted : invocation.files.findSome? (refusal? store) = none) :
    execute surroundings store stamp arguments = perform surroundings store stamp invocation := by
  rw [execute, parsed]
  dsimp only
  rw [help, accepted, if_neg Bool.false_ne_true]

end LayeredConfig.CommandLine
