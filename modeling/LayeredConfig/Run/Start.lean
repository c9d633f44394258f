import LayeredConfig.Compose.Load
import LayeredConfig.Interpolation.Settle
import LayeredConfig.Override.Apply
import LayeredConfig.Run.Settings

/-!
# Starting a run

The configuration of a run is made in a fixed order: files are composed, overrides applied, settings filled in,
and placeholders at last, so that they see everything else.
-/

namespace LayeredConfig.Run

/-- The files of a run: those given, or the default file if none is given and it exists. -/
def filesOf (store : File.Store) (given : List String) (default : Option String) : List String :=
  match given, default with
  | [], some path => if store.holds (.ofText path) then [path] else []
  | _, _ => given

/-- The record of a configuration that is complete. -/
def startedRecord (count : Nat) : Record :=
  .debug "hydralite.core.runtime.app"
    ("Initialised configuration from " ++ String.ofList (decimalDigits count) ++ " file(s)")

/-- The configuration of a run from files, overrides and a job name. -/
def start (surroundings : Surroundings) (store : File.Store) (given overrides : List String)
    (jobName default : Option String) : Logged Tree := do
  let paths := filesOf store given default
  let composed ← Compose.files store paths
  let changed ← (composed.override overrides).logged
  let named ← (setJobName surroundings jobName changed).outcome
  let final ← (named.interpolate surroundings).logged
  Logged.record (startedRecord paths.length)
  return final

/-- The configuration of a run from files and overrides that has a run directory, too. -/
def build (surroundings : Surroundings) (store : File.Store) (paths overrides : List String) :
    Logged Tree := do
  let composed ← Compose.files store paths
  let prepared ← (ensureDefaults composed).outcome
  let changed ← (prepared.override overrides).logged
  let named ← (setJobName surroundings none changed).outcome
  (named.interpolate surroundings).logged

end LayeredConfig.Run
