import LayeredConfig.File.Store
import LayeredConfig.Journal.Record

/-!
# State of a log

A log passes on the records that reach its threshold to its handlers, each of which writes a line to the error
stream or to a file. A log without handlers writes the bare messages of warnings and worse to the error stream.
-/

namespace LayeredConfig

/-- Where a log writes lines: to a file at a place, or to the error stream. -/
structure Handler where
  name : Option String
  file : Option File.Place
  deriving DecidableEq, Repr

/-- A log with what it writes to: its threshold, its handlers in order, the files, what has been written to the
error stream, and the text before each line, such as the time. -/
structure Log where
  threshold : Nat
  handlers : List Handler
  store : File.Store
  errors : String
  stamp : String

namespace Log

/-- The line of a record in this log. -/
def lineOf (log : Log) (record : Record) : String :=
  log.stamp ++ record.line ++ "\n"

/-- Adds to the error stream. -/
def writeError (log : Log) (text : String) : Log :=
  { log with errors := log.errors ++ text }

/-- Lets a handler write a line. -/
def handle (line : String) (log : Log) (handler : Handler) : Log :=
  match handler.file with
  | none => log.writeError line
  | some place => { log with store := log.store.append place line.toUTF8 }

/-- Takes a record. -/
def emit (log : Log) (record : Record) : Log :=
  if record.rank < log.threshold then log
  else if log.handlers.isEmpty then
    if record.rank < Level.warning.rank then log else log.writeError (record.message ++ "\n")
  else log.handlers.foldl (handle (log.lineOf record)) log

/-- Takes records in order. -/
def emitAll (log : Log) (records : List Record) : Log :=
  records.foldl emit log

end Log

end LayeredConfig
