import LayeredConfig.Proofs.Run.Stored
import LayeredConfig.Proofs.Tree.Assigning
import LayeredConfig.Proofs.Yaml.LineEnds
import LayeredConfig.Proofs.Yaml.Rereading

/-!
# Reading the artifacts of a run

Whatever stands in a run directory, the artifacts that are stored there can be read again: the configuration and its run
settings as what they were, in order, and the overrides as they were given (`isReadAs_of_storeArtifacts`). A configuration
without run settings stores none, so that a file of them that was there before is there still.
-/

namespace LayeredConfig

open File

namespace Tree

variable {tree node : Tree} {key : String}

/-! ## Parts of a tree that can be read again -/

theorem IsWritable.find (writable : tree.IsWritable) (found : tree.find [key] = some node) : node.IsWritable := by
  obtain ⟨entries, child, rfl, there, inside⟩ := find_cons_eq_some found
  rw [find_nil] at inside
  cases inside
  exact (entriesAreWritable_iff.1 writable _ (Entries.mem_of_lookup there)).2

theorem HasDistinctKeys.find {path : KeyPath} (distinct : tree.HasDistinctKeys) (found : tree.find path = some node) :
    node.HasDistinctKeys :=
  ((madeOf_of_hasDistinctKeys tree distinct).find found).hasDistinctKeys

/-- The sequence of some texts. -/
def ofTexts (texts : List String) : Tree :=
  .sequence (texts.map .string)

theorem ordered_ofTexts (texts : List String) : (ofTexts texts).ordered = ofTexts texts := by
  rw [ofTexts, ordered]
  congr 1
  induction texts with
  | nil => rfl
  | cons text rest ih => rw [List.map_cons, itemsOrdered, ih, ordered]

theorem isWritable_ofTexts {texts : List String} (writable : ∀ text ∈ texts, Yaml.Scalar.IsWritableText text.toList) :
    (ofTexts texts).IsWritable :=
  itemsAreWritable_iff.2 (List.forall_mem_map.2 writable)

theorem hasDistinctKeys_ofTexts (texts : List String) : (ofTexts texts).HasDistinctKeys :=
  itemsHaveDistinctKeys_iff.2 (List.forall_mem_map.2 fun _ _ => trivial)

end Tree

namespace Run

variable {before after store : Store} {directory : Path} {place : Place} {tree : Tree} {overrides : List String}
  {items : List (String × Tree)} {name : String}

/-! ## Reading files -/

/-- A path leads to a file whose content is read as a tree. -/
def IsReadAs (store : Store) (path : Path) (tree : Tree) : Prop :=
  ∃ place content, store.placeOf path = .ok place ∧ store.HasFile place content
    ∧ Compose.readContent place content = .ok tree

theorem Wrote.placeOf_child (wrote : Wrote before after directory place items) (notDots : name ≠ "..") :
    after.placeOf (directory.child name) = .ok (place ++ [name]) :=
  @Store.placeOf_of_entryPlace _ _ _ .isDirectory (Store.entryPlace_child wrote.leads wrote.directory notDots)

/-- A tree that was written can be read, in order. -/
theorem Wrote.isReadAs (wrote : Wrote before after directory place items) (member : (name, tree) ∈ items)
    (notDots : name ≠ "..") (writable : tree.IsWritable) (distinct : tree.HasDistinctKeys) :
    IsReadAs after (directory.child name) tree.ordered := by
  obtain ⟨text, canonical, file⟩ := wrote.files _ member
  refine ⟨place ++ [name], contentOf text, wrote.placeOf_child notDots, file, ?_⟩
  rw [Compose.readContent, text?_of_write writable canonical]
  rw [Yaml.write_eq writable] at canonical
  cases canonical
  exact Yaml.read_orderedText _ (Tree.isWritable_ordered tree writable) (Tree.hasDistinctKeys_ordered tree distinct)

/-! ## The artifacts -/

/-- What can be read again of a configuration and its overrides can be of each artifact. -/
theorem isWritable_artifacts (writable : tree.IsWritable)
    (texts : ∀ override ∈ overrides, Yaml.Scalar.IsWritableText override.toList) :
    ∀ item ∈ artifacts tree overrides, item.2.IsWritable := by
  have given := Tree.isWritable_ofTexts texts
  rw [artifacts]
  cases found : tree.find [settingsKey] with
  | none => exact List.forall_mem_cons.2 ⟨writable, List.forall_mem_singleton.2 given⟩
  | some node =>
    exact List.forall_mem_cons.2 ⟨writable,
      List.forall_mem_cons.2 ⟨writable.find found, List.forall_mem_singleton.2 given⟩⟩

/-- A configuration without run settings leaves the file of the settings as it was, or leaves none there. -/
theorem hasFile_iff_of_absent {result : Option Path} (named : ∀ name ∈ directory.names, CanBeWritten name)
    (absent : tree.find [settingsKey] = none)
    (stored : (storeArtifacts store tree overrides (some directory)).result.outcome = .ok result) :
    ∃ place, (storeArtifacts store tree overrides (some directory)).store.placeOf
        ((metadataDirectory directory).child "hydra.yaml") = .ok place
      ∧ ∀ content, (storeArtifacts store tree overrides (some directory)).store.HasFile place content
        ↔ store.HasFile place content := by
  obtain ⟨made, place, grown, -, wrote⟩ := wrote_of_storeArtifacts named stored
  refine ⟨place ++ ["hydra.yaml"], wrote.placeOf_child (by decide), fun content => ?_⟩
  have other : ∀ item ∈ artifacts tree overrides, place ++ ["hydra.yaml"] ≠ place ++ [item.1] := by
    rw [artifacts, absent]
    exact List.forall_mem_cons.2 ⟨by simp, List.forall_mem_singleton.2 (by simp)⟩
  have same := wrote.others _ other
  rw [Store.HasFile, same]
  exact ⟨grown.olds, grown.files⟩

/-- The artifacts of a run that were stored are read as its configuration and the settings in it, in order, and as the
overrides that it was given, whatever stood in the directory before. Without settings in the configuration the file of the
settings is the one that was there before, if there was one. -/
theorem isReadAs_of_storeArtifacts {result : Option Path} (named : ∀ name ∈ directory.names, CanBeWritten name)
    (distinct : tree.HasDistinctKeys) (writable : tree.IsWritable)
    (texts : ∀ override ∈ overrides, Yaml.Scalar.IsWritableText override.toList)
    (stored : (storeArtifacts store tree overrides (some directory)).result.outcome = .ok result) :
    result = some (metadataDirectory directory)
      ∧ IsReadAs (storeArtifacts store tree overrides (some directory)).store
        ((metadataDirectory directory).child "config.yaml") tree.ordered ∧ tree.Alike tree.ordered
      ∧ IsReadAs (storeArtifacts store tree overrides (some directory)).store
        ((metadataDirectory directory).child "overrides.yaml") (.ofTexts overrides)
      ∧ (∀ node, tree.find [settingsKey] = some node →
        IsReadAs (storeArtifacts store tree overrides (some directory)).store
          ((metadataDirectory directory).child "hydra.yaml") node.ordered ∧ node.Alike node.ordered)
      ∧ (tree.find [settingsKey] = none → ∃ place,
        (storeArtifacts store tree overrides (some directory)).store.placeOf
          ((metadataDirectory directory).child "hydra.yaml") = .ok place
        ∧ ∀ content, (storeArtifacts store tree overrides (some directory)).store.HasFile place content
          ↔ store.HasFile place content) := by
  obtain ⟨made, place, -, rfl, wrote⟩ := wrote_of_storeArtifacts named stored
  have writables := isWritable_artifacts writable texts
  refine ⟨rfl, ?_, Tree.alike_ordered tree distinct, ?_, fun node found => ?_, fun absent => ?_⟩
  · exact wrote.isReadAs List.mem_cons_self (by decide) writable distinct
  · have last : ("overrides.yaml", Tree.ofTexts overrides) ∈ artifacts tree overrides := List.mem_concat_self
    rw [← Tree.ordered_ofTexts]
    exact wrote.isReadAs last (by decide) (writables _ last) (Tree.hasDistinctKeys_ofTexts overrides)
  · have own : ("hydra.yaml", node) ∈ artifacts tree overrides := by
      rw [artifacts, found]
      exact List.mem_cons_of_mem _ List.mem_cons_self
    exact ⟨wrote.isReadAs own (by decide) (writables _ own) (distinct.find found),
      Tree.alike_ordered node (distinct.find found)⟩
  · exact hasFile_iff_of_absent named absent stored

/-- A run directory in which an earlier run has stored its settings. -/
def usedStore : Store :=
  let settings := contentOf "run:\n  dir: run\n".toList
  ⟨[(["work"], .directory), (["work", "run"], .directory), (["work", "run", ".hydra"], .directory),
    (["work", "run", ".hydra", "hydra.yaml"], .file settings)], ["work"]⟩

/-- That run directory, as seen from the top. -/
def usedDirectory : Path :=
  ⟨.top, ["work", "run"]⟩

/-- Run settings of a job with a name. -/
def jobSettings : Tree :=
  .mapping [("job", .mapping [("name", .string "train")])]

/-- A configuration with such settings beside a string of line boundaries. -/
def namedTree : Tree :=
  .mapping [("note", .string "a\u2028b\r"), ("hydra", jobSettings)]

theorem exact_usedDirectory : usedDirectory.IsExact :=
  ⟨rfl, by decide, by decide +kernel⟩

theorem canHold_usedStore : CanHold usedStore usedDirectory :=
  ⟨by simp [Path.holdsNull, metadataDirectory, usedDirectory, Path.child], by decide +kernel, by decide +kernel⟩

theorem outcome_usedStore (writable : tree.IsWritable)
    (texts : ∀ override ∈ overrides, Yaml.Scalar.IsWritableText override.toList) :
    (storeArtifacts usedStore tree overrides (some usedDirectory)).result.outcome
      = .ok (some (metadataDirectory usedDirectory)) :=
  outcome_storeArtifacts exact_usedDirectory canHold_usedStore fun item member =>
    ⟨_, Yaml.write_eq (isWritable_artifacts writable texts item member)⟩

/-- New settings are read in the place of the old ones, and overrides that look like other YAML as the texts they are. -/
theorem isReadAs_of_storeArtifacts_usedStore :
    let after := (storeArtifacts usedStore namedTree ["+seed=007", "-: x"] (some usedDirectory)).store
    IsReadAs after ⟨.top, ["work", "run", ".hydra", "hydra.yaml"]⟩ jobSettings
      ∧ IsReadAs after ⟨.top, ["work", "run", ".hydra", "overrides.yaml"]⟩
        (.sequence [.string "+seed=007", .string "-: x"]) := by
  have writable : namedTree.IsWritable := by decide +kernel
  have texts : ∀ override ∈ ["+seed=007", "-: x"], Yaml.Scalar.IsWritableText override.toList := by decide +kernel
  obtain ⟨-, -, -, given, own, -⟩ := isReadAs_of_storeArtifacts exact_usedDirectory.written (by decide) writable texts
    (outcome_usedStore writable texts)
  have settings := (own jobSettings rfl).1
  have ordered : jobSettings.ordered = jobSettings := by decide +kernel
  rw [ordered] at settings
  exact ⟨settings, given⟩

/-- A configuration without settings leaves those of the earlier run, as if they were its own. -/
theorem settings_of_earlier_run :
    let tree : Tree := .mapping [("a", .int 1)]
    let storing := storeArtifacts usedStore tree [] (some usedDirectory)
    storing.result.outcome = .ok (some (metadataDirectory usedDirectory)) ∧ tree.find [settingsKey] = none
      ∧ storing.store.holds ((metadataDirectory usedDirectory).child "hydra.yaml") = true := by
  intro tree storing
  have stored := @outcome_usedStore tree [] (by decide +kernel) nofun
  obtain ⟨place, leads, same⟩ := hasFile_iff_of_absent exact_usedDirectory.written rfl stored
  have spelt : ["work", "run", ".hydra", "hydra.yaml"] = place := Store.names_normal_of_placeOf rfl leads
  subst spelt
  have file := (same (contentOf "run:\n  dir: run\n".toList)).2 rfl
  refine ⟨stored, rfl, ?_⟩
  rw [Store.holds, Store.nodeAt?, leads]
  exact Option.isSome_of_eq_some file

end Run

end LayeredConfig
