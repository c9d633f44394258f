import LayeredConfig.File.Path
import LayeredConfig.Surroundings
import LayeredConfig.Tree.Assign

/-!
# Run settings

Two settings of a run stand in the tree: the run directory at `hydra.run.dir` and the job name at
`hydra.job.name`. Both are filled in when they are absent, and nothing that is there is changed, except that a
null job name counts as absent.
-/

namespace LayeredConfig.Run

/-- The key under which run settings stand. -/
def settingsKey : String := "hydra"

/-- Where the run directory stands. -/
def directoryPath : KeyPath := [settingsKey, "run", "dir"]

/-- Where the job name stands. -/
def jobNamePath : KeyPath := [settingsKey, "job", "name"]

/-- The run directory that is used when none is given, as a template. -/
def defaultDirectory : String := "outputs/$\x7bnow:%Y-%m-%d_%H-%M-%S\x7d"

/-! ## Filling in the run directory -/

/-- The entries of the child mapping under a key, which is empty when there is no child. `label` names the child
in the failure when it is no mapping. -/
def childEntries (entries : List (String × Tree)) (key label : String) :
    Except Error (List (String × Tree)) :=
  match entries.lookup key with
  | none => .ok []
  | some (.mapping children) => .ok children
  | some _ => .error (.notMapping label)

/-- The entries of the run settings with a run directory. -/
def withDirectory (entries : List (String × Tree)) : List (String × Tree) :=
  match entries.lookup "dir" with
  | some _ => entries
  | none => Entries.put "dir" (.string defaultDirectory) entries

/-- The entries of the root with a run directory below. A failure leaves the mappings that were added on the
way to it. -/
def fillDirectory (root : List (String × Tree)) : Attempt :=
  match childEntries root settingsKey settingsKey with
  | .error e => ⟨.mapping root, some e⟩
  | .ok settings =>
    match childEntries settings "run" (settingsKey ++ ".run") with
    | .error e => ⟨.mapping (Entries.put settingsKey (.mapping settings) root), some e⟩
    | .ok run =>
      let settings := Entries.put "run" (.mapping (withDirectory run)) settings
      ⟨.mapping (Entries.put settingsKey (.mapping settings) root), none⟩

/-- The tree with a run directory. A null root becomes a mapping. -/
def ensureDefaults : Tree → Attempt
  | .null => fillDirectory []
  | .mapping entries => fillDirectory entries
  | tree => ⟨tree, some .runRootNotMapping⟩

/-! ## The run directory of a tree -/

/-- The run directory that a tree asks for, if it asks for one. -/
def directory? (tree : Tree) : Except Error (Option File.Path) :=
  match tree.find directoryPath with
  | none => .ok (some (.ofText defaultDirectory))
  | some .null => .ok none
  | some (.string text) => .ok (if text.isEmpty then none else some (.ofText text))
  | some _ => .error .runDirectoryKind

/-- Makes the run directory of a tree absolute, and puts it back as text, or as null where there is none. -/
def pinDirectory (here : List String) (tree : Tree) :
    Except Error (Tree × Option File.Path) := do
  let directory := (← directory? tree).map fun path => (path.absolute here).normal
  let value : Tree :=
    match directory with
    | none => .null
    | some path => .string path.text
  let pinned ← (tree.assign directoryPath value false).outcome
  return (pinned, directory)

/-! ## The job name -/

/-- The job name of a run that was given none: the file name of the program. -/
def defaultJobName (surroundings : Surroundings) : String :=
  match surroundings.arguments with
  | [] => "app"
  | program :: _ =>
    let name := (File.Path.ofText program).name
    if name.isEmpty then "app" else name

/-- The job name of a run: the given one, unless it is absent or empty. -/
def jobNameOf (surroundings : Surroundings) (given : Option String) : String :=
  match given with
  | some name => if name.isEmpty then defaultJobName surroundings else name
  | none => defaultJobName surroundings

/-- The tree with a job name. -/
def setJobName (surroundings : Surroundings) (given : Option String) (tree : Tree) : Attempt :=
  let name : Tree := .string (jobNameOf surroundings given)
  match tree.find jobNamePath with
  | none => tree.assign jobNamePath name true
  | some .null => ⟨tree.modify (fun _ => name) jobNamePath, none⟩
  | some _ => ⟨tree, none⟩

end LayeredConfig.Run
