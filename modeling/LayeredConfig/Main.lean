import LayeredConfig.CommandLine.Execute
import Std.Time.Format

/-!
# The command

The outer layer of the command line: it takes the surroundings and the files from the system, lets
`CommandLine.execute` do the work, and hands the output and the changed files back.
-/

namespace LayeredConfig.Command

/-- The local time. -/
def currentMoment : IO Moment := do
  let now ← Std.Time.PlainDateTime.now
  return {
    year := now.date.year.toInt.toNat
    month := now.date.month.val.toNat
    day := now.date.day.val.toNat
    hour := now.time.hour.val.toNat
    minute := now.time.minute.val.toNat
    second := now.time.second.val.toNat
    microsecond := now.time.nanosecond.val.toNat / 1000 }

/-- A setting of the environment, written as a name, an equals sign and a value. -/
def setting? (text : String) : Option (String × String) :=
  (Override.splitEquals text.toList).map fun (name, value) =>
    (String.ofList name, String.ofList value)

/-- The environment of the process. -/
def currentEnvironment : IO (List (String × String)) := do
  let content ← IO.FS.readBinFile "/proc/self/environ"
  let settings := ((String.fromUTF8? content).getD "").splitOn "\x00"
  return settings.filterMap setting?

/-- The entries of a directory, at most `depth` levels deep. -/
def nodesBelow : Nat → File.Place → IO (List (File.Place × File.Node))
  | 0, _ => return []
  | depth + 1, place => do
    let directory := System.mkFilePath [(File.Path.ofNames place).text]
    let entries ← directory.readDir
    let parts ← entries.toList.mapM fun entry => do
      let inner := place ++ [entry.fileName]
      if ← entry.path.isDir then
        return (inner, File.Node.directory) :: (← nodesBelow depth inner)
      else return [(inner, File.Node.file (← IO.FS.readBinFile entry.path))]
    return parts.flatten

/-- The places on the way to a place, and the place itself. -/
def placesTo (place : File.Place) : List File.Place :=
  (List.range place.length).map fun length => place.take (length + 1)

/-- The directories that a run may read: the working directory and those of the given files. -/
def startingPlaces (here : File.Place) (arguments : List String) : List File.Place :=
  match CommandLine.parse arguments with
  | .ok invocation =>
    here :: invocation.files.map fun path => ((File.Path.ofText path).resolve here).dropLast
  | .error _ => []

/-- The files and directories that a run may read. -/
def currentStore (arguments : List String) : IO File.Store := do
  let here := (File.Path.ofText (← IO.currentDir).toString).names
  let mut nodes : List (File.Place × File.Node) := (placesTo here).map fun place => (place, .directory)
  for place in (startingPlaces here arguments).eraseDups do
    if ← (System.mkFilePath [(File.Path.ofNames place).text]).isDir then
      nodes := nodes ++ (placesTo place).map (fun inner => (inner, .directory)) ++ (← nodesBelow 32 place)
  return ⟨nodes, here⟩

/-- Makes a directory or writes a file of the system, if it is not as it was before. -/
def storeNode (before : File.Store) (place : File.Place) (node : File.Node) : IO Unit := do
  let path := (File.Path.ofNames place).text
  match node, before.node? place with
  | .directory, some _ => return ()
  | .directory, none => IO.FS.createDirAll path
  | .file content, some (.file old) =>
    if content.data != old.data then IO.FS.writeBinFile path content
  | .file content, _ => IO.FS.writeBinFile path content

/-- Runs the command. -/
def run (arguments : List String) : IO UInt32 := do
  let now ← currentMoment
  let program := (← IO.appPath).toString
  let surroundings : Surroundings := ⟨← currentEnvironment, now, program :: arguments⟩
  let before ← currentStore arguments
  let result := CommandLine.execute surroundings before (CommandLine.stampOf now) arguments
  for (place, node) in result.log.store.nodes do
    storeNode before place node
  IO.print result.output
  IO.eprint result.log.errors
  if let some complaint := result.ending.complaint? then
    IO.eprintln s!"Error: {complaint}"
  return result.ending.status.toUInt32

end LayeredConfig.Command

/-- The entry point of the command. -/
def main (arguments : List String) : IO UInt32 :=
  LayeredConfig.Command.run arguments
