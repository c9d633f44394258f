import LayeredConfig.File.Store
import LayeredConfig.Journal.Logged
import LayeredConfig.Run.Settings
import LayeredConfig.Yaml.Canonical

/-!
# Artifacts of a run

A run leaves three files in the directory `.hydra` of its run directory: its configuration, the run settings
among it if there are any, and the overrides as they were given.
-/

namespace LayeredConfig

/-- Writes the canonical text of a tree to the file at a written path, which a failure shows as it is written.
Gives the store afterwards, with as much of the text as can be written, and the failure. -/
def File.Store.writeTree (store : Store) (path : String) (tree : Tree) : Store × Option Error :=
  let target := Path.ofText path
  if target.holdsNull then (store, some .nullInPath)
  else
    match store.write target (contentOf (Yaml.writtenPart tree)) with
    | .error failure => (store, some (.outputUnwritable path failure))
    | .ok store =>
      match Yaml.write tree with
      | .ok _ => (store, none)
      | .error e => (store, some e)

namespace Run

/-- The name of the logger of this part. -/
def artifactsLogger : String := "hydralite.core.runtime.run_dir"

/-- The directory for the artifacts of a run. -/
def metadataDirectory (directory : File.Path) : File.Path :=
  directory.child ".hydra"

/-- The artifacts of a run: the name of each file and the tree that it holds. -/
def artifacts (tree : Tree) (overrides : List String) : List (String × Tree) :=
  ("config.yaml", tree)
    :: ((tree.find [settingsKey]).toList.map fun settings => ("hydra.yaml", settings))
    ++ [("overrides.yaml", .sequence (overrides.map .string))]

/-- Writes files into a directory up to the first failure. -/
def writeAll (store : File.Store) (directory : File.Path) :
    List (String × Tree) → File.Store × Option Error
  | [] => (store, none)
  | (name, tree) :: rest =>
    match store.writeTree (directory.child name).text tree with
    | (store, none) => writeAll store directory rest
    | failed => failed

/-- What storing the artifacts of a run leaves: the store, the directory if there is one, and the records. -/
structure Stored where
  store : File.Store
  result : Logged (Option File.Path)

/-- Stores the artifacts of a run in its directory, which is made first. A run without a directory stores
nothing. -/
def storeArtifacts (store : File.Store) (tree : Tree) (overrides : List String) :
    Option File.Path → Stored
  | none =>
    let record := Record.info artifactsLogger
      "hydra.run.dir is null; skipping run directory creation"
    ⟨store, ⟨.ok none, [record]⟩⟩
  | some directory =>
    let metadata := metadataDirectory directory
    if metadata.holdsNull then ⟨store, .of (.error .nullInPath)⟩
    else
      match store.ensureDirectory metadata with
      | (store, some failure) =>
        ⟨store, .of (.error (.runDirectoryUnmakable metadata.text failure))⟩
      | (store, none) =>
        match writeAll store metadata (artifacts tree overrides) with
        | (store, some e) => ⟨store, .of (.error e)⟩
        | (store, none) =>
          let record := Record.debug artifactsLogger s!"Stored run artifacts in {metadata.text}"
          ⟨store, ⟨.ok (some metadata), [record]⟩⟩

end Run

end LayeredConfig
