import LayeredConfig.CommandLine.Execute
import LayeredConfig.Proofs.File.Written
import LayeredConfig.Proofs.Logging.Sparing
import LayeredConfig.Proofs.Yaml.Writing

/-!
# What a run leaves in its files

Each artifact of a run is in its file after the artifacts were stored (`wrote_of_storeArtifacts`), and they are stored if
the directory for them can be made and no directory has one of their names (`outcome_storeArtifacts`). The log of the
job leaves the configuration as it was stored, unless the job asks for that very file as its log. So a run that is done
has printed the text that is in the file of its configuration: `hasFile_of_publish`.
-/

namespace LayeredConfig

open File

variable {store store' : Store} {directory path : Path} {tree : Tree} {overrides : List String}
  {items : List (String × Tree)} {place : Place} {content : ByteArray}

/-! ## Writing trees -/

theorem writtenPart_of_write {text : List Char} (writes : Yaml.write tree = .ok text) :
    Yaml.writtenPart tree = text := by
  rw [Yaml.write] at writes
  split at writes
  · next joined =>
    cases writes
    rw [Yaml.writtenPart, joined]
  · cases writes

/-- A tree was written to a path as its canonical text. -/
theorem write_of_writeTree (named : ∀ name ∈ path.names, CanBeWritten name)
    (written : store.writeTree path.text tree = (store', none)) :
    ∃ text, Yaml.write tree = .ok text ∧ store.write path (contentOf text) = .ok store' := by
  rw [Store.writeTree, Path.ofText_text named] at written
  split at written
  · cases written
  · split at written
    · cases written
    · next writes =>
      split at written
      · next text canonical =>
        cases written
        rw [writtenPart_of_write canonical] at writes
        exact ⟨text, canonical, writes⟩
      · cases written

namespace Run

/-- Names that artifacts are given: they can be written and are no double dots. -/
def Nameable (items : List (String × Tree)) : Prop :=
  ∀ item ∈ items, CanBeWritten item.1 ∧ item.1 ≠ ".."

/-- After trees were written in the directory at a place, the path leads there still, each tree is in the file of its name,
and nothing else has changed. -/
structure Wrote (before after : Store) (directory : Path) (place : Place) (items : List (String × Tree)) : Prop where
  leads : after.placeOf directory = .ok place
  directory : after.node? place = some .directory
  files : ∀ item ∈ items, ∃ text, Yaml.write item.2 = .ok text ∧ after.HasFile (place ++ [item.1]) (contentOf text)
  others : ∀ other, (∀ item ∈ items, other ≠ place ++ [item.1]) → after.node? other = before.node? other
  here : after.here = before.here

theorem wrote_of_writeAll (named : ∀ name ∈ directory.names, CanBeWritten name) (leads : store.placeOf directory = .ok place)
    (here : store.node? place = some .directory) (nameable : Nameable items) (distinct : (items.map Prod.fst).Nodup)
    (written : writeAll store directory items = (store', none)) : Wrote store store' directory place items := by
  induction items generalizing store with
  | nil =>
    cases written
    exact ⟨leads, here, fun _ member => absurd member List.not_mem_nil, fun _ _ => rfl, rfl⟩
  | cons item rest ih =>
    obtain ⟨name, tree⟩ := item
    rw [Nameable, List.forall_mem_cons] at nameable
    rw [List.map_cons, List.nodup_cons] at distinct
    rw [writeAll] at written
    split at written
    · next store'' first =>
      have names : ∀ other ∈ (directory.child name).names, CanBeWritten other :=
        List.forall_mem_append.2 ⟨named, List.forall_mem_singleton.2 nameable.1.1⟩
      obtain ⟨text, canonical, writes⟩ := write_of_writeTree names first
      obtain ⟨free, rfl⟩ := Store.put_of_write_child leads here nameable.1.2 writes
      have stays : (store.put (place ++ [name]) (.file (contentOf text))).node? place = some .directory := by
        rw [Store.node?_put_of_ne (Store.ne_of_directory here free), here]
      have later := ih (Store.walk_put free leads) stays nameable.2 distinct.2 written
      have apart : ∀ item ∈ rest, place ++ [name] ≠ place ++ [item.1] := by
        intro item member same
        have equal : name = item.1 := List.singleton_inj.1 (List.append_cancel_left same)
        exact distinct.1 (List.mem_map.2 ⟨item, member, equal.symm⟩)
      have file : store'.HasFile (place ++ [name]) (contentOf text) :=
        (later.others _ apart).trans (Store.hasFile_put (List.append_ne_nil_of_right_ne_nil _ (List.cons_ne_nil _ _)))
      refine ⟨later.leads, later.directory, List.forall_mem_cons.2 ⟨⟨text, canonical, file⟩, later.files⟩, ?_, later.here⟩
      intro other others
      rw [List.forall_mem_cons] at others
      rw [later.others other others.2, Store.node?_put_of_ne others.1]
    · next result failed =>
      rw [written] at failed
      exact absurd rfl (failed store')

/-- The file in which a run stores its configuration. -/
def configurationFile (directory : Path) : Path :=
  (metadataDirectory directory).child "config.yaml"

theorem exact_metadataDirectory (exact : directory.IsExact) : (metadataDirectory directory).IsExact :=
  exact.child (by decide) (by decide)

/-- The names of the files that a run stores. -/
def artifactNames : List String :=
  ["config.yaml", "hydra.yaml", "overrides.yaml"]

theorem mem_artifactNames {item : String × Tree} (member : item ∈ artifacts tree overrides) :
    item.1 ∈ artifactNames := by
  revert item
  rw [artifacts]
  cases tree.find [settingsKey] <;> simp [artifactNames]

theorem nameable_artifacts (tree : Tree) (overrides : List String) : Nameable (artifacts tree overrides) := by
  have all : ∀ name ∈ artifactNames, CanBeWritten name ∧ name ≠ ".." := by decide
  exact fun item member => all item.1 (mem_artifactNames member)

theorem nodup_artifacts (tree : Tree) (overrides : List String) : ((artifacts tree overrides).map Prod.fst).Nodup := by
  have names : ["config.yaml", "overrides.yaml"].Nodup ∧ ["config.yaml", "hydra.yaml", "overrides.yaml"].Nodup := by
    decide
  rw [artifacts]
  cases tree.find [settingsKey] with
  | none => exact names.1
  | some settings => exact names.2

/-- What storing the artifacts of a run does when it succeeds. -/
theorem steps_of_storeArtifacts {result : Option Path}
    (stored : (storeArtifacts store tree overrides (some directory)).result.outcome = .ok result) :
    ∃ made written, store.ensureDirectory (metadataDirectory directory) = (made, none)
      ∧ writeAll made (metadataDirectory directory) (artifacts tree overrides) = (written, none)
      ∧ (storeArtifacts store tree overrides (some directory)).store = written
      ∧ result = some (metadataDirectory directory) := by
  unfold storeArtifacts at stored ⊢
  dsimp only at stored ⊢
  split at stored
  · cases stored
  · next noNull =>
    rw [if_neg noNull]
    split at stored
    · cases stored
    · next made ensured =>
      split at stored
      · cases stored
      · next written all =>
        cases stored
        exact ⟨made, written, ensured, all, rfl, rfl⟩

/-- Storing the artifacts of a run that succeeds writes them in the directory that was made for them. -/
theorem wrote_of_storeArtifacts (named : ∀ name ∈ directory.names, CanBeWritten name) {result : Option Path}
    (stored : (storeArtifacts store tree overrides (some directory)).result.outcome = .ok result) :
    ∃ made place, store.Grown made ∧ result = some (metadataDirectory directory)
      ∧ Wrote made (storeArtifacts store tree overrides (some directory)).store (metadataDirectory directory) place
        (artifacts tree overrides) := by
  obtain ⟨made, written, ensured, all, same, rfl⟩ := steps_of_storeArtifacts stored
  have grown := Store.grown_ensureDirectory store (metadataDirectory directory)
  rw [ensured] at grown
  obtain ⟨place, leads, here⟩ := Store.isDirectory_eq_true_iff.1 (Store.isDirectory_of_ensureDirectory ensured)
  have names : ∀ name ∈ (metadataDirectory directory).names, CanBeWritten name :=
    List.forall_mem_append.2 ⟨named, List.forall_mem_singleton.2 (by decide)⟩
  rw [same]
  exact ⟨made, place, grown, rfl,
    wrote_of_writeAll names leads here (nameable_artifacts tree overrides) (nodup_artifacts tree overrides) all⟩

/-- After the artifacts of a run were stored, the text of its configuration is in its file. -/
theorem hasFile_of_storeArtifacts (exact : directory.IsExact) {result : Option Path}
    (stored : (storeArtifacts store tree overrides (some directory)).result.outcome = .ok result) :
    ∃ text, Yaml.write tree = .ok text
      ∧ (storeArtifacts store tree overrides (some directory)).store.HasFile (configurationFile directory).names
        (contentOf text)
      ∧ (storeArtifacts store tree overrides (some directory)).store.here = store.here := by
  obtain ⟨made, place, grown, -, wrote⟩ := wrote_of_storeArtifacts exact.written stored
  obtain ⟨text, canonical, file⟩ := wrote.files ("config.yaml", tree) List.mem_cons_self
  have metadata := exact_metadataDirectory exact
  have names : (metadataDirectory directory).names = place := by
    rw [← Store.names_normal_of_placeOf metadata.absolute wrote.leads, Path.normal_of_plain metadata.plain]
  rw [← names] at file
  exact ⟨text, canonical, file, wrote.here.trans grown.here⟩

/-! ## When artifacts can be stored -/

theorem writeTree_child {name : String} {text : List Char} (exact : directory.IsExact) (nameable : CanBeWritten name)
    (notDots : name ≠ "..") (noNull : (directory.child name).holdsNull = false)
    (isDirectory : store.isDirectory directory = true) (free : store.isDirectoryAt (directory.child name).names = false)
    (canonical : Yaml.write tree = .ok text) :
    store.writeTree (directory.child name).text tree
      = (store.put (directory.child name).names (.file (contentOf text)), none) := by
  obtain ⟨place, leads, here⟩ := Store.isDirectory_eq_true_iff.1 isDirectory
  have names : place = directory.names := by
    rw [← Store.names_normal_of_placeOf exact.absolute leads, Path.normal_of_plain exact.plain]
  subst names
  have written := Store.write_child leads here notDots free
  rw [Store.writeTree, (exact.child nameable notDots).ofText_text, noNull, if_neg Bool.false_ne_true, written]
  dsimp only
  rw [canonical, writtenPart_of_write canonical]
  rfl

/-- Trees can be written in a directory under names that are no directories there. -/
theorem writeAll_of_isDirectory (exact : directory.IsExact) (nameable : Nameable items)
    (noNull : ∀ item ∈ items, (directory.child item.1).holdsNull = false)
    (isDirectory : store.isDirectory directory = true)
    (free : ∀ item ∈ items, store.isDirectoryAt (directory.child item.1).names = false)
    (canonical : ∀ item ∈ items, ∃ text, Yaml.write item.2 = .ok text) :
    (writeAll store directory items).2 = none := by
  induction items generalizing store with
  | nil => rfl
  | cons item rest ih =>
    obtain ⟨name, tree⟩ := item
    rw [Nameable] at nameable
    rw [List.forall_mem_cons] at nameable noNull free canonical
    obtain ⟨text, writes⟩ := canonical.1
    rw [writeAll, writeTree_child exact nameable.1.1 nameable.1.2 noNull.1 isDirectory free.1 writes]
    refine ih nameable.2 noNull.2 (Store.isDirectory_put free.1 isDirectory) (fun item member => ?_) canonical.2
    by_cases same : (directory.child item.1).names = (directory.child name).names
    · rw [same]
      exact (Store.hasFile_put (by simp [Path.child])).isDirectoryAt
    · rw [Store.isDirectoryAt, Store.node?_put_of_ne same]
      exact free.2 item member

/-- The directory for the artifacts of a run can be made, and no directory has one of their names. -/
structure CanHold (store : Store) (directory : Path) : Prop where
  noNull : (metadataDirectory directory).holdsNull = false
  made : (store.ensureDirectory (metadataDirectory directory)).2 = none
  free : ∀ name ∈ artifactNames, (store.ensureDirectory (metadataDirectory directory)).1.isDirectoryAt
    ((metadataDirectory directory).child name).names = false

/-- The artifacts of a run have canonical texts if its tree has one and no override is an integer numeral that is too
long to be read. -/
theorem exists_write_artifacts (regular : tree.Regular) (canonical : ∃ text, Yaml.write tree = .ok text)
    (short : ∀ override ∈ overrides, ¬Yaml.Scalar.IsOverlong override.toList) :
    ∀ item ∈ artifacts tree overrides, ∃ text, Yaml.write item.2 = .ok text := by
  have given : ∃ text, Yaml.write (.sequence (overrides.map .string)) = .ok text := by
    have parts : (Tree.sequence (overrides.map .string)).MadeOf
        (fun node => Yaml.Writes (fun _ => True) (Yaml.Scalar.write node))
        (fun name => Yaml.Writes (fun _ => True) (Yaml.Scalar.writeKey name)) :=
      .sequence (List.forall_mem_map.2 fun override member =>
        .scalar rfl (Yaml.writes_stringText_iff.2 (short override member)))
    exact (Yaml.exists_write_iff parts).2 parts
  rw [artifacts]
  cases found : tree.find [settingsKey] with
  | none => exact List.forall_mem_cons.2 ⟨canonical, List.forall_mem_singleton.2 given⟩
  | some node =>
    have settings : ∃ text, Yaml.write node = .ok text := Yaml.exists_write_find regular canonical found
    exact List.forall_mem_cons.2 ⟨canonical,
      List.forall_mem_cons.2 ⟨settings, List.forall_mem_singleton.2 given⟩⟩

/-- The artifacts of a run are stored if they have canonical texts and the store can hold them. -/
theorem outcome_storeArtifacts (exact : directory.IsExact) (canHold : CanHold store directory)
    (canonical : ∀ item ∈ artifacts tree overrides, ∃ text, Yaml.write item.2 = .ok text) :
    (storeArtifacts store tree overrides (some directory)).result.outcome
      = .ok (some (metadataDirectory directory)) := by
  have own : ∀ name ∈ artifactNames, name.contains '\x00' = false := by simp [artifactNames]
  have noNulls : ∀ name ∈ artifactNames, ((metadataDirectory directory).child name).holdsNull = false := by
    intro name member
    rw [Path.holdsNull, Path.child, List.any_append, ← Path.holdsNull, canHold.noNull, Bool.false_or, List.any_cons,
      List.any_nil, Bool.or_false, own name member]
  obtain ⟨made, ensured⟩ : ∃ made, store.ensureDirectory (metadataDirectory directory) = (made, none) :=
    ⟨_, Prod.ext rfl canHold.made⟩
  have free := canHold.free
  rw [ensured] at free
  have all : (writeAll made (metadataDirectory directory) (artifacts tree overrides)).2 = none :=
    writeAll_of_isDirectory (exact_metadataDirectory exact) (nameable_artifacts tree overrides)
      (fun item member => noNulls item.1 (mem_artifactNames member))
      (Store.isDirectory_of_ensureDirectory ensured) (fun item member => free item.1 (mem_artifactNames member))
      canonical
  unfold storeArtifacts
  dsimp only
  rw [canHold.noNull, if_neg Bool.false_ne_true, ensured]
  dsimp only
  split
  · next failed =>
    rw [failed] at all
    cases all
  · rfl

end Run

namespace CommandLine

variable {log : Log} {output : String}

theorem output_openJobLog (output : String) (tree : Tree) (log : Log) :
    (openJobLog output tree log).output = output := by
  unfold openJobLog
  split
  · rfl
  · dsimp only
    split <;> rfl

/-- Setting up the log of the job spares a file that is not the log. -/
theorem spares_openJobLog (spares : log.Spares place content)
    (apart : ∀ path, Logging.wantedFile? tree = some path → path.resolve log.store.here ≠ place) :
    (openJobLog output tree log).log.Spares place content := by
  have configured := spares.configure apart
  unfold openJobLog
  split
  · next result =>
    rw [result] at configured
    exact configured
  · next result =>
    rw [result] at configured
    dsimp only
    split <;> exact configured.emitAll _

/-- A run that is done has printed the text that is in the file of its configuration. -/
theorem hasFile_of_publish (exact : directory.IsExact) (console : ∀ handler ∈ log.handlers, handler.file = none)
    (apart : ∀ path, Logging.wantedFile? tree = some path →
      path.resolve log.store.here ≠ (Run.configurationFile directory).names)
    (done : (publish overrides (some directory) tree log).ending = .done) :
    ∃ text, Yaml.write tree = .ok text ∧ (publish overrides (some directory) tree log).output = String.ofList text
      ∧ (publish overrides (some directory) tree log).log.store.HasFile (Run.configurationFile directory).names
        (contentOf text) := by
  unfold publish at done ⊢
  split at done
  · cases done
  · next text canonical =>
    refine ⟨text, canonical, ?_⟩
    dsimp only at done ⊢
    cases stored : (Run.storeArtifacts log.store tree overrides (some directory)).result.outcome with
    | error e =>
      rw [stored] at done
      cases done
    | ok result =>
      obtain ⟨text', canonical', file, here⟩ := Run.hasFile_of_storeArtifacts exact stored
      obtain ⟨-, -, -, -, -, rfl⟩ := Run.steps_of_storeArtifacts stored
      rw [canonical] at canonical'
      cases canonical'
      let storing := Run.storeArtifacts log.store tree overrides (some directory)
      let after : Log := { log with store := storing.store }
      have spares :
          (after.emitAll storing.result.log).Spares (Run.configurationFile directory).names (contentOf text) := by
        refine Log.Spares.emitAll ⟨file, fun handler member => ?_⟩ _
        rw [console handler member]
        exact nofun
      refine ⟨output_openJobLog _ tree _, (spares_openJobLog spares ?_).file⟩
      have same : after.SameFiles (after.emitAll storing.result.log) := @Log.sameFiles_emitAll after console _
      rw [same.store, show after.store.here = log.store.here from here]
      exact apart

end CommandLine

end LayeredConfig
