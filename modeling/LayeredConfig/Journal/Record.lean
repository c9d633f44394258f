/-!
# Log records

What the library reports while it works: each record names the part that speaks, a level and a message.
-/

namespace LayeredConfig

/-- The levels of importance that have names. -/
inductive Level where
  | debug
  | info
  | warning
  | error
  | critical
  deriving DecidableEq, Repr

namespace Level

/-- The rank of a level; a higher rank is more important. -/
def rank : Level → Nat
  | .debug => 10
  | .info => 20
  | .warning => 30
  | .error => 40
  | .critical => 50

/-- The name of a level. -/
def name : Level → String
  | .debug => "DEBUG"
  | .info => "INFO"
  | .warning => "WARNING"
  | .error => "ERROR"
  | .critical => "CRITICAL"

/-- The named levels. -/
def all : List Level := [.debug, .info, .warning, .error, .critical]

/-- The name shown for a rank; zero is the rank of an unset level, and ranks between the named ones show
their number. -/
def rankName (rank : Nat) : String :=
  match all.find? fun level => level.rank == rank with
  | some level => level.name
  | none => if rank = 0 then "NOTSET" else s!"Level {rank}"

end Level

/-- A log record. -/
structure Record where
  logger : String
  rank : Nat
  message : String
  deriving DecidableEq, Repr

namespace Record

/-- A record at the lowest named level. -/
def debug (logger message : String) : Record :=
  ⟨logger, Level.debug.rank, message⟩

/-- A record at the level of ordinary news. -/
def info (logger message : String) : Record :=
  ⟨logger, Level.info.rank, message⟩

/-- A record of something that may be wrong. -/
def warning (logger message : String) : Record :=
  ⟨logger, Level.warning.rank, message⟩

/-- The line of a record in a log. -/
def line (record : Record) : String :=
  s!"{record.logger} - {Level.rankName record.rank} - {record.message}"

end Record

end LayeredConfig
