import LayeredConfig.Proofs.Compose.Single
import LayeredConfig.Proofs.Run.Settled
import LayeredConfig.Proofs.Run.Stored
import LayeredConfig.Proofs.Yaml.LineEnds
import LayeredConfig.Proofs.Yaml.Rereading
import Mathlib

/-!
# Replaying a run

A run that is done has stored the text that it printed, and a run on that file alone prints the same text and has the
same directory, whatever surrounds it: `replay`. The stored text is read as the tree of the first run in order; that
tree is settled, so that no part of building a configuration changes it, and its text is the stored one again.
-/

namespace LayeredConfig.CommandLine

open File (Plain CanBeWritten)

variable {surroundings : Surroundings} {store : File.Store} {stamp : String} {arguments overrides : List String}
  {invocation : Invocation} {tree : Tree} {directory : File.Path} {log : Log} {place : File.Place}

/-! ## The end of the command -/

theorem refusal?_ne_done (store : File.Store) (path : String) : refusal? store path ≠ some .done := by
  unfold refusal?
  dsimp only
  split
  · exact nofun
  · split <;> exact nofun

/-- A path that is no directory is no refusal. -/
theorem refusal?_eq_none {path : String} (noNull : (File.Path.ofText path).holdsNull = false)
    (file : store.isDirectory (File.Path.ofText path) = false) : refusal? store path = none := by
  unfold refusal?
  simp only [noNull, file, Bool.and_false, Bool.false_eq_true, if_false]

/-- A run that is done has published its configuration. -/
theorem execute_eq_publish (parsed : parse arguments = .ok invocation) (help : invocation.help = false)
    (accepted : invocation.files.findSome? (refusal? store) = none)
    (configured : (configuration surroundings store invocation).outcome = .ok (tree, some directory)) :
    execute surroundings store stamp arguments = publish invocation.overrides (some directory) tree
      ((startingLog store stamp invocation.level).emitAll (configuration surroundings store invocation).log) := by
  rw [execute_eq_perform parsed help accepted, perform, configured]

theorem accepted_of_done (parsed : parse arguments = .ok invocation) (help : invocation.help = false)
    (done : (execute surroundings store stamp arguments).ending = .done) :
    invocation.files.findSome? (refusal? store) = none := by
  cases refused : invocation.files.findSome? (refusal? store) with
  | none => rfl
  | some ending =>
    rw [execute, parsed] at done
    dsimp only at done
    rw [help, refused, if_neg Bool.false_ne_true] at done
    obtain ⟨path, -, refuses⟩ := List.exists_of_findSome?_eq_some refused
    exact absurd (done ▸ refuses) (refusal?_ne_done store path)

/-- The log that the command starts with writes to the error stream only, and so leaves the files as they are. -/
theorem sameFiles_startingLog (store : File.Store) (stamp level : String) (records : List Record) :
    ((startingLog store stamp level).emitAll records).store = store
      ∧ ∀ handler ∈ ((startingLog store stamp level).emitAll records).handlers, handler.file = none := by
  have console : ∀ handler ∈ (startingLog store stamp level).handlers, handler.file = none :=
    List.forall_mem_singleton.2 rfl
  have same := Log.sameFiles_emitAll console records
  exact ⟨same.store, by rw [same.handlers]; exact console⟩

theorem output_publish {text : List Char} (writes : Yaml.write tree = .ok text) (directory : Option File.Path) :
    (publish overrides directory tree log).output = String.ofList text := by
  rw [publish, writes]
  dsimp only
  split
  · rfl
  · rfl
  · exact output_openJobLog _ tree _

/-- The store can hold the artifacts of a run, and the log of its job can be set up when they are there. -/
structure CanPublish (store : File.Store) (tree : Tree) (overrides : List String) (directory : File.Path) : Prop where
  holds : Run.CanHold store directory
  configures : ∀ log : Log, log.store = (Run.storeArtifacts store tree overrides (some directory)).store →
    (log.configure tree).2 = none

theorem configure_of_noFile (noFile : Logging.wantedFile? tree = none) (log : Log) : (log.configure tree).2 = none := by
  rw [Log.configure, noFile]

/-- Publishing a regular tree with a canonical text is done if the files can be written, and if no override is an
integer numeral that is too long to be read. -/
theorem ending_publish {text : List Char} (exact : directory.IsExact) (regular : tree.Regular)
    (writes : Yaml.write tree = .ok text) (short : ∀ override ∈ overrides, ¬Yaml.Scalar.IsOverlong override.toList)
    (console : ∀ handler ∈ log.handlers, handler.file = none)
    (canPublish : CanPublish log.store tree overrides directory) :
    (publish overrides (some directory) tree log).ending = .done := by
  have stored := Run.outcome_storeArtifacts exact canPublish.holds
    (Run.exists_write_artifacts regular ⟨text, writes⟩ short)
  have listed : (Logging.listing tree).outcome = .ok () := by
    rw [Logging.listing, Logged.outcome_bind, Logged.outcome_bind, writes]
    rfl
  have opened (other : Log) (works : (other.configure tree).2 = none) :
      (openJobLog (String.ofList text) tree other).ending = .done := by
    unfold openJobLog
    split
    · next failed =>
      rw [failed] at works
      cases works
    · dsimp only
      rw [listed]
  let storing := Run.storeArtifacts log.store tree overrides (some directory)
  let after : Log := { log with store := storing.store }
  have same : after.SameFiles (after.emitAll storing.result.log) := @Log.sameFiles_emitAll after console _
  rw [publish, writes]
  dsimp only
  rw [stored]
  exact opened _ (canPublish.configures _ same.store)

/-! ## Replaying -/

/-- A tree whose text can be replayed: it lists no includes, holds no markers, and all its texts can be read back. -/
structure Replayable (tree : Tree) : Prop where
  noIncludes : tree.find [Compose.includesKey] = none
  literal : ∀ text, tree.HasString text → Template.hasMarker text.toList = false
  strings : ∀ text, tree.HasString text → text.toList.all Yaml.isReadable = true
  keys : ∀ name, tree.HasKey name → name.toList.all Yaml.isReadable = true
    ∧ ∀ keyText, Yaml.Scalar.writeKey name = .ok keyText → keyText.length ≤ Yaml.keyReach

/-- An invocation of the file at a place alone, without overrides. -/
structure Invocation.IsOf (invocation : Invocation) (store : File.Store) (place : File.Place) : Prop where
  help : invocation.help = false
  overrides : invocation.overrides = []
  file : ∃ path, invocation.files = [path] ∧ (File.Path.ofText path).holdsNull = false
    ∧ (File.Path.ofText path).resolve store.here = place

/-- The configuration of a run on a stored configuration is the stored one, in order. -/
theorem configuration_of_stored {text : List Char} (settled : Run.Settled tree directory) (regular : tree.Regular)
    (noIncludes : tree.find [Compose.includesKey] = none) (writable : tree.IsWritable)
    (writes : Yaml.write tree = .ok text) (present : store.contentAt place = .ok (File.contentOf text))
    (isOf : invocation.IsOf store place) :
    (configuration surroundings store invocation).outcome = .ok (tree.ordered, some directory) := by
  obtain ⟨path, files, noNull, leads⟩ := isOf.file
  have distinct := regular.hasDistinctKeys
  have orderedDistinct := Tree.hasDistinctKeys_ordered tree distinct
  have ordered := settled.ordered distinct
  have reads : Compose.readContent place (File.contentOf text) = .ok tree.ordered := by
    rw [Compose.readContent, File.text?_of_write writable writes]
    exact Yaml.read_of_write regular writable writes _
  have orderedRegular := Compose.regular_readContent reads
  have absent : tree.ordered.find [Compose.includesKey] = none := by
    cases found : tree.ordered.find [Compose.includesKey] with
    | none => rfl
    | some node =>
      have back := (Tree.alike_ordered tree distinct).symm distinct orderedDistinct
      obtain ⟨node', found', -⟩ := back.find found
      cases noIncludes.symm.trans found'
  obtain ⟨entries, child, root, -, -⟩ := Tree.find_cons_eq_some ordered.directory
  rw [root] at reads ordered absent orderedDistinct orderedRegular ⊢
  rw [Tree.find_mapping_cons, Option.bind_eq_none_iff] at absent
  have unlisted : entries.lookup Compose.includesKey = none := by
    cases listed : entries.lookup Compose.includesKey with
    | none => rfl
    | some node => exact absurd (absent node listed) (by rw [Tree.find_nil]; exact nofun)
  subst leads
  exact ordered.configuration orderedRegular
    (Compose.files_of_readContent noNull present reads unlisted orderedDistinct.1) files isOf.overrides

/-- A file is no refusal. -/
theorem accepted_of_isOf {content : ByteArray} (plain : Plain store.here)
    (present : store.contentAt place = .ok content) (isOf : invocation.IsOf store place) :
    invocation.files.findSome? (refusal? store) = none := by
  obtain ⟨path, files, noNull, rfl⟩ := isOf.file
  have file := (File.Store.contentAt_eq_ok_iff.1 present).isDirectory plain
  rw [files, List.findSome?_cons, refusal?_eq_none noNull file]
  rfl

/-- A run that is done has stored the text that it printed. A run on the stored file alone, whatever the surroundings,
the working directory and the other files, prints the same text and has the same run directory, and it is done if its
own files can be written. -/
theorem replay (here : ∀ name ∈ store.here, CanBeWritten name) (parsed : parse arguments = .ok invocation)
    (help : invocation.help = false) (done : (execute surroundings store stamp arguments).ending = .done)
    (configured : (configuration surroundings store invocation).outcome = .ok (tree, some directory))
    (replayable : Replayable tree)
    (apart : ∀ file, Logging.wantedFile? tree = some file →
      file.resolve store.here ≠ (Run.configurationFile directory).names) :
    (execute surroundings store stamp arguments).log.store.contentAt (Run.configurationFile directory).names
        = .ok (execute surroundings store stamp arguments).output.toUTF8
      ∧ ∀ surroundings' store' stamp' arguments' invocation', Plain store'.here →
        store'.contentAt (Run.configurationFile directory).names
          = .ok (execute surroundings store stamp arguments).output.toUTF8 →
        parse arguments' = .ok invocation' → invocation'.IsOf store' (Run.configurationFile directory).names →
        (execute surroundings' store' stamp' arguments').output = (execute surroundings store stamp arguments).output
          ∧ (configuration surroundings' store' invocation').outcome = .ok (tree.ordered, some directory)
          ∧ (CanPublish store' tree.ordered [] directory →
            (execute surroundings' store' stamp' arguments').ending = .done) := by
  have regular := regular_configuration configured
  have settled := Run.settled_of_configuration here configured replayable.literal
  have accepted := accepted_of_done parsed help done
  rw [execute_eq_publish parsed help accepted configured] at done ⊢
  obtain ⟨same, console⟩ := sameFiles_startingLog store stamp invocation.level
    (configuration surroundings store invocation).log
  obtain ⟨text, writes, output, file⟩ := hasFile_of_publish settled.exact console (by rw [same]; exact apart) done
  have writable := Yaml.isWritable_of_write regular writes replayable.strings replayable.keys
  rw [output]
  refine ⟨File.Store.contentAt_eq_ok_iff.2 file, ?_⟩
  intro surroundings' store' stamp' arguments' invocation' plain present parsed' isOf
  have configured' : (configuration surroundings' store' invocation').outcome = .ok (tree.ordered, some directory) :=
    configuration_of_stored settled regular replayable.noIncludes writable writes present isOf
  have writes' : Yaml.write tree.ordered = .ok text := (Yaml.write_ordered writable).trans writes
  rw [execute_eq_publish parsed' isOf.help (accepted_of_isOf plain present isOf) configured', isOf.overrides]
  refine ⟨output_publish writes' _, configured', fun canPublish => ?_⟩
  obtain ⟨same', console'⟩ := sameFiles_startingLog store' stamp' invocation'.level
    (configuration surroundings' store' invocation').log
  refine ending_publish settled.exact (regular_configuration configured') writes' nofun console' ?_
  rw [same']
  exact canPublish

/-! ## A run and its replay -/

/-- A working directory with a file that asks for a run directory. -/
def trainingStore : File.Store :=
  let text := "name: demo\nhydra:\n  run:\n    dir: out/../runs\n"
  ⟨[(["work"], .directory), (["work", "main.yaml"], .file (File.contentOf text.toList))], ["work"]⟩

/-- A program at noon. -/
def trainingSurroundings : Surroundings :=
  ⟨[], ⟨2024, 5, 6, 12, 0, 0, 0⟩, ["train.py"]⟩

/-- The configuration of the program with a run directory and an override. -/
def trainingTree (directory : String) : Tree :=
  let settings := [("run", Tree.mapping [("dir", .string directory)]), ("job", .mapping [("name", .string "train.py")])]
  .mapping [("name", .string "demo"), ("hydra", .mapping settings), ("size", .sequence [.int 3, .string "x"])]

/-- The run directory, as seen from the top. -/
def trainingDirectory : File.Path :=
  ⟨.top, ["work", "runs"]⟩

theorem noNull_training : (File.Path.ofText "main.yaml").holdsNull = false := by
  have names : (File.Path.ofText "main.yaml").names = ["main.yaml"] := by decide +kernel
  simp [File.Path.holdsNull, names]

theorem configuration_training :
    (configuration trainingSurroundings trainingStore ⟨["main.yaml"], "WARNING", ["+size=[3, x]"], false⟩).outcome
      = .ok (trainingTree "/work/runs", some trainingDirectory) := by
  let entries : List (String × Tree) :=
    [("name", .string "demo"), ("hydra", .mapping [("run", .mapping [("dir", .string "out/../runs")])])]
  let changed : Tree := .mapping (entries ++ [("size", .sequence [.int 3, .string "x"])])
  have composes : (Compose.files trainingStore ["main.yaml"]).outcome = .ok (.mapping entries) :=
    Compose.files_of_readContent noNull_training rfl (by decide +kernel) rfl (by decide)
  have prepares : (Run.ensureDefaults (.mapping entries)).outcome = .ok (.mapping entries) := by decide +kernel
  have overrides : ((Tree.mapping entries).override ["+size=[3, x]"]).logged.outcome = .ok changed := by decide +kernel
  have job : (Run.setJobName trainingSurroundings none changed).outcome = .ok (trainingTree "out/../runs") := by
    decide +kernel
  have literal : (trainingTree "out/../runs").MadeOf
      (fun node => ∀ text, node = .string text → Template.hasMarker text.toList = false) fun _ => True := by
    decide +kernel
  have settles : ((trainingTree "out/../runs").interpolate trainingSurroundings).logged.outcome
      = .ok (trainingTree "out/../runs") :=
    Attempt.outcome_eq_ok_iff.2 (Interpolation.interpolate_of_literal _ literal.hasDistinctKeys
      ((Tree.madeOf_texts_iff literal).1 literal).1)
  rw [outcome_configuration, Outcome.bind_eq_ok]
  refine ⟨trainingTree "out/../runs", ?_, by decide +kernel⟩
  rw [Run.outcome_build]
  simp only [Outcome.bind_eq_ok]
  exact ⟨_, composes, _, prepares, _, overrides, _, job, settles⟩

theorem exact_training : trainingDirectory.IsExact :=
  ⟨rfl, by decide, by decide +kernel⟩

theorem noNull_metadata_training : (Run.metadataDirectory trainingDirectory).holdsNull = false := by
  simp [File.Path.holdsNull, Run.metadataDirectory, trainingDirectory, File.Path.child]

theorem done_training :
    (execute trainingSurroundings trainingStore "" ["-c", "main.yaml", "+size=[3, x]"]).ending = .done := by
  have accepted : ["main.yaml"].findSome? (refusal? trainingStore) = none := by
    rw [List.findSome?_cons, refusal?_eq_none noNull_training (by decide +kernel)]
    rfl
  rw [execute_eq_publish (by decide +kernel) rfl accepted configuration_training]
  have writable : (trainingTree "/work/runs").IsWritable := by decide +kernel
  have short : ∀ override ∈ ["+size=[3, x]"], ¬Yaml.Scalar.IsOverlong override.toList := by decide +kernel
  have holds : Run.CanHold trainingStore trainingDirectory :=
    ⟨noNull_metadata_training, by decide +kernel, by decide +kernel⟩
  obtain ⟨same, console⟩ := sameFiles_startingLog trainingStore "" "WARNING" _
  refine ending_publish exact_training (regular_configuration configuration_training) (Yaml.write_eq writable) short
    console ?_
  rw [same]
  exact ⟨holds, fun log _ => configure_of_noFile (by decide +kernel) log⟩

/-- A store that holds a file at the place of the configuration can hold the artifacts of the run. -/
theorem canHold_training (content : ByteArray) :
    Run.CanHold (File.Store.put ⟨[], ["home"]⟩ ["work", "runs", ".hydra", "config.yaml"] (.file content))
      trainingDirectory where
  noNull := noNull_metadata_training
  made := rfl
  free := List.forall_mem_cons.2 ⟨rfl, List.forall_mem_cons.2 ⟨rfl, List.forall_mem_singleton.2 rfl⟩⟩

/-- Replaying from another directory, at another time and without a program name. -/
theorem replay_training :
    let first := execute trainingSurroundings trainingStore "" ["-c", "main.yaml", "+size=[3, x]"]
    let place := ["work", "runs", ".hydra", "config.yaml"]
    let other := File.Store.put ⟨[], ["home"]⟩ place (.file first.output.toUTF8)
    let second := execute ⟨[], ⟨1970, 1, 1, 0, 0, 0, 0⟩, []⟩ other "" ["-c", "/work/runs/.hydra/config.yaml"]
    first.ending = .done ∧ first.log.store.contentAt place = .ok first.output.toUTF8
      ∧ second.ending = .done ∧ second.output = first.output := by
  intro first place other second
  have texts : (trainingTree "/work/runs").MadeOf (fun node => ∀ text, node = .string text →
      Template.hasMarker text.toList = false ∧ Yaml.Scalar.IsWritableText text.toList) Yaml.Scalar.IsWritableKey := by
    decide +kernel
  obtain ⟨strings, keys⟩ := (Tree.madeOf_texts_iff texts).1 texts
  have replayable : Replayable (trainingTree "/work/runs") :=
    ⟨rfl, fun text has => (strings text has).1, fun text has => (strings text has).2.readable,
      fun name has => ⟨(keys name has).1.readable, (keys name has).2⟩⟩
  have noFile : Logging.wantedFile? (trainingTree "/work/runs") = none := by decide +kernel
  obtain ⟨stored, again⟩ := replay (by decide +kernel) (by decide +kernel) rfl done_training configuration_training
    replayable fun file wanted => nomatch noFile.symm.trans wanted
  have names : (File.Path.ofText "/work/runs/.hydra/config.yaml").names = place := by decide +kernel
  have isOf : Invocation.IsOf ⟨["/work/runs/.hydra/config.yaml"], "WARNING", [], false⟩ other place :=
    ⟨rfl, rfl, _, rfl, by simp [File.Path.holdsNull, names, place], by decide +kernel⟩
  have present : other.contentAt place = .ok first.output.toUTF8 :=
    File.Store.contentAt_eq_ok_iff.2 (File.Store.hasFile_put (List.cons_ne_nil _ _))
  have plain : Plain other.here := List.forall_mem_singleton.2 (by decide)
  have parsed : parse ["-c", "/work/runs/.hydra/config.yaml"]
      = .ok ⟨["/work/runs/.hydra/config.yaml"], "WARNING", [], false⟩ := by decide +kernel
  obtain ⟨same, -, done⟩ := again ⟨[], ⟨1970, 1, 1, 0, 0, 0, 0⟩, []⟩ other "" _ _ plain present parsed isOf
  have noFile' : Logging.wantedFile? (trainingTree "/work/runs").ordered = none := by decide_cbv
  exact ⟨done_training, stored, done ⟨canHold_training _, fun log _ => configure_of_noFile noFile' log⟩, same⟩

end LayeredConfig.CommandLine
