import LayeredConfig.Journal.Logged
import LayeredConfig.Logging.State
import LayeredConfig.Logging.Threshold
import LayeredConfig.Run.Settings
import LayeredConfig.Text.Lines
import LayeredConfig.Yaml.Canonical

/-!
# Configuring a log

The settings below `hydra.job_logging` say at which level a log starts and whether it writes to the error stream
and to a file. The two handlers for that are known by their names: configuring a log again keeps, replaces or
removes them, and leaves the other handlers alone.
-/

namespace LayeredConfig.Logging

/-- The name of the logger of this part. -/
def logger : String := "hydralite.core.runtime.job_logging"

/-- The name of the handler that writes to the error stream. -/
def consoleName : String := "hydralite.console"

/-- The name of the handler that writes to a file. -/
def fileName : String := "hydralite.file"

/-- The text of the string at a path, if a string is there. -/
def textAt (tree : Tree) (path : KeyPath) : Option String :=
  match tree.find path with
  | some (.string text) => some text
  | _ => none

/-- The text at a path, unless it is absent or empty. -/
def textOr (tree : Tree) (path : KeyPath) (default : String) : String :=
  match textAt tree path with
  | some text => if text.isEmpty then default else text
  | none => default

/-- A path below the settings of the log. -/
def settingPath (rest : KeyPath) : KeyPath :=
  [Run.settingsKey, "job_logging"] ++ rest

/-- The level that a tree asks for. -/
def levelOf (tree : Tree) : Level :=
  Level.ofText? (textAt tree (settingPath ["root", "level"]))

/-- The handlers that a tree asks for, if it lists any: the strings of the list. -/
def handlersOf (tree : Tree) : Option (List String) :=
  match tree.find (settingPath ["root", "handlers"]) with
  | some (.sequence items) => some (items.filterMap fun item => item.asString.toOption)
  | _ => none

/-- Whether a tree asks for lines on the error stream, as it does when it lists no handlers. -/
def wantsConsole (tree : Tree) : Bool :=
  match handlersOf tree with
  | some names => names.contains "console"
  | none => true

/-- Whether a tree asks for lines in a file. -/
def wantsFile (tree : Tree) : Bool :=
  match handlersOf tree with
  | some names => names.contains "file"
  | none => false

/-- The file for log lines that a tree names: by default one named for the job in the run directory. -/
def filePath? (tree : Tree) : Option File.Path :=
  match tree.find (settingPath ["handlers", "file", "filename"]) with
  | none =>
    let directory := textOr tree Run.directoryPath "."
    let job := textOr tree Run.jobNamePath "app"
    some ((File.Path.ofText directory).join (.ofText (job ++ ".log")))
  | some (.string text) => if text = "" ∨ text = "null" then none else some (.ofText text)
  | some _ => none

/-- The file for log lines that a tree asks for, if it asks for one. -/
def wantedFile? (tree : Tree) : Option File.Path :=
  if wantsFile tree then filePath? tree else none

end Logging

namespace Log

/-- The first handler of a name. -/
def handler? (log : Log) (name : String) : Option Handler :=
  log.handlers.find? fun handler => handler.name == some name

/-- Removes the first handler of a name. -/
def drop (log : Log) (name : String) : Log :=
  { log with handlers := log.handlers.eraseP fun handler => handler.name == some name }

/-- Adds a handler behind the others. -/
def add (log : Log) (handler : Handler) : Log :=
  { log with handlers := log.handlers ++ [handler] }

/-- Writes to the error stream by the named handler, if it does not already. -/
def installConsole (log : Log) : Log :=
  match log.handler? Logging.consoleName with
  | some _ => log
  | none => log.add ⟨some Logging.consoleName, none⟩

/-- Opens the file at a place, which becomes empty, and writes to it by the named handler. Gives the log
afterwards and the failure. -/
def openFile (log : Log) (place : File.Place) : Log × Option File.Failure :=
  let path := File.Path.ofNames place
  match log.store.ensureDirectory path.parent with
  | (store, some failure) => ({ log with store := store }, some failure)
  | (store, none) =>
    match store.write path ByteArray.empty with
    | .error failure => ({ log with store := store }, some failure)
    | .ok store => (({ log with store := store } : Log).add ⟨some Logging.fileName, some place⟩, none)

/-- Writes to the file at a place by the named handler. A handler that writes there already stays as it is; any
other of that name is removed first. -/
def installFile (log : Log) (place : File.Place) : Log × Option Error :=
  if (log.handler? Logging.fileName).bind Handler.file = some place then (log, none)
  else
    match (log.drop Logging.fileName).openFile place with
    | (log, none) => (log, none)
    | (log, some failure) =>
      (log, some (.logUnwritable (File.Path.ofNames place).text failure))

/-- Makes a log as a tree asks for. Gives the log afterwards and the failure. -/
def configure (log : Log) (tree : Tree) : Log × Option Error :=
  let level := Logging.levelOf tree
  let log := { log with threshold := level.rank }
  let log := if Logging.wantsConsole tree then log.installConsole else log.drop Logging.consoleName
  let (log, failure) :=
    match Logging.wantedFile? tree with
    | none => (log.drop Logging.fileName, none)
    | some path =>
      if path.holdsNull then (log, some .nullInPath)
      else log.installFile (path.resolve log.store.here)
  match failure with
  | some e => (log, some e)
  | none => (log.emit (.debug Logging.logger s!"Logging initialised at level {level.name}"), none)

end Log

namespace Logging

/-- The records that list a tree line by line. -/
def listing (tree : Tree) : Logged Unit := do
  Logged.record (.debug logger "--- resolved config ---")
  let text ← Yaml.write tree
  let lines := (Text.lines text).filter fun line => !line.isEmpty
  ⟨.ok (), lines.map fun line => .debug logger (String.ofList line)⟩

end LayeredConfig.Logging
