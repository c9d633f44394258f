import LayeredConfig.Proofs.File.Written
import LayeredConfig.Proofs.Interpolation.Literal
import LayeredConfig.Proofs.Run.Filling

/-!
# Configurations that are settled

The tree that a run ends with has its directory as text and its job name, and holds no placeholders unless they came
from outside: it is `Settled`. Every part of building a configuration leaves such a tree as it is, so that a run that
composes it has it for its configuration, with the same directory: `configuration_of_settled`.
-/

namespace LayeredConfig

namespace File.Path

theorem text_ne_empty {path : Path} (absolute : path.isAbsolute = true) : path.text.isEmpty = false := by
  have filled : path ≠ ⟨.here, []⟩ := by
    rintro rfl
    cases absolute
  have chars := toList_text filled
  cases text : path.text.isEmpty with
  | false => rfl
  | true =>
    rw [String.isEmpty_iff.1 text] at chars
    have none := (List.append_eq_nil_iff.1 chars.symm).1
    obtain ⟨root, names⟩ := path
    cases root with
    | here => cases absolute
    | top => exact absurd (show Root.top.text.toList = [] from none) (by decide)
    | doubleTop => exact absurd (show Root.doubleTop.text.toList = [] from none) (by decide)

end File.Path

namespace Run

variable {tree result : Tree} {directory : File.Path} {surroundings : Surroundings} {store : File.Store}

/-- A tree that has an exact run directory and a job name, and no placeholders. -/
structure Settled (tree : Tree) (directory : File.Path) : Prop where
  exact : directory.IsExact
  directory : tree.find directoryPath = some (.string directory.text)
  job : ∃ name, tree.find jobNamePath = some name ∧ name ≠ .null
  literal : ∀ text, tree.HasString text → Template.hasMarker text.toList = false

/-! ## Building a settled tree -/

namespace Settled

theorem ensureDefaults (settled : Settled tree directory) : Run.ensureDefaults tree = ⟨tree, none⟩ :=
  ensureDefaults_of_find settled.directory

theorem setJobName (settled : Settled tree directory) (given : Option String) :
    Run.setJobName surroundings given tree = ⟨tree, none⟩ := by
  obtain ⟨name, found, named⟩ := settled.job
  rw [Run.setJobName, found]
  cases name with
  | null => exact absurd rfl named
  | bool | int | double | string | sequence | mapping => rfl

theorem pinDirectory (settled : Settled tree directory) (here : List String) :
    Run.pinDirectory here tree = .ok (tree, some directory) := by
  have found : directory? tree = .ok (some directory) := by
    rw [directory?, settled.directory]
    dsimp only
    rw [File.Path.text_ne_empty settled.exact.absolute, settled.exact.ofText_text]
    rfl
  have pinned : tree.assign directoryPath (.string directory.text) false = ⟨tree, none⟩ :=
    Tree.assign_of_find (List.cons_ne_nil _ _) settled.directory
  rw [Run.pinDirectory, found]
  show (do
    let pinned ← (tree.assign directoryPath (.string ((directory.absolute here).normal).text) false).outcome
    return (pinned, some (directory.absolute here).normal)) = _
  rw [settled.exact.normal_absolute, pinned]
  rfl

/-- Building a configuration from a settled tree, without overrides, changes nothing. -/
theorem build (settled : Settled tree directory) (regular : tree.Regular) {paths : List String}
    (composes : (Compose.files store paths).outcome = .ok tree) :
    (Run.build surroundings store paths []).outcome = .ok tree := by
  obtain ⟨succeeds, final⟩ :=
    Interpolation.interpolate_of_literal surroundings regular.hasDistinctKeys settled.literal
  have prepared : (Run.ensureDefaults tree).outcome = .ok tree := by rw [settled.ensureDefaults]; rfl
  have named : (Run.setJobName surroundings none tree).outcome = .ok tree := by rw [settled.setJobName]; rfl
  have interpolated : (tree.interpolate surroundings).logged.outcome = .ok tree :=
    Attempt.outcome_eq_ok_iff.2 ⟨succeeds, final⟩
  simp only [outcome_build, Outcome.bind_eq_ok]
  exact ⟨tree, composes, tree, prepared, tree, rfl, tree, named, interpolated⟩

/-- A run that composes a settled tree has it for its configuration, with its directory. -/
theorem configuration {invocation : CommandLine.Invocation} {path : String} (settled : Settled tree directory)
    (regular : tree.Regular) (composes : (Compose.files store [path]).outcome = .ok tree)
    (files : invocation.files = [path]) (overrides : invocation.overrides = []) :
    (CommandLine.configuration surroundings store invocation).outcome = .ok (tree, some directory) := by
  rw [CommandLine.outcome_configuration, files, overrides, Outcome.bind_eq_ok]
  exact ⟨tree, settled.build regular composes, settled.pinDirectory store.here⟩

/-- A settled tree stays so when its entries are put in order. -/
theorem ordered (settled : Settled tree directory) (distinct : tree.HasDistinctKeys) :
    Settled tree.ordered directory := by
  have alike := Tree.alike_ordered tree distinct
  have back := alike.symm distinct (Tree.hasDistinctKeys_ordered tree distinct)
  refine ⟨settled.exact, ?_, ?_, fun text ⟨path, leaf⟩ => ?_⟩
  · obtain ⟨node, found, same⟩ := alike.find settled.directory
    cases same
    exact found
  · obtain ⟨name, found, named⟩ := settled.job
    obtain ⟨name', found', same⟩ := alike.find found
    refine ⟨name', found', ?_⟩
    rintro rfl
    cases name with
    | null => exact named rfl
    | bool | int | double | string | sequence | mapping => cases same
  · exact settled.literal text ⟨path, Interpolation.leaf_of_alike back leaf⟩

end Settled

/-! ## Where settled trees come from -/

theorem job_of_setJobName {given : Option String}
    (names : (Run.setJobName surroundings given tree).outcome = .ok result) :
    ∃ name, result.find jobNamePath = some name ∧ name ≠ .null := by
  obtain ⟨works, rfl⟩ := Attempt.outcome_eq_ok_iff.1 names
  unfold setJobName at works ⊢
  dsimp only at works ⊢
  split at works
  · exact ⟨_, Tree.find_of_assign works, nofun⟩
  · next found => exact ⟨_, Tree.find_modify _ found, nofun⟩
  · next name other found => exact ⟨name, found, other⟩

theorem job_of_interpolate (named : ∃ name, tree.find jobNamePath = some name ∧ name ≠ .null) :
    ∃ name, (tree.interpolate surroundings).tree.find jobNamePath = some name ∧ name ≠ .null := by
  obtain ⟨name, found, other⟩ := named
  have kept : ∀ progress : Interpolation.Progress,
      ∃ name, (progress.apply tree).find jobNamePath = some name ∧ name ≠ .null := by
    intro progress
    rw [Interpolation.find_apply, found]
    refine ⟨_, rfl, ?_⟩
    cases name with
    | null => exact absurd rfl other
    | bool | int | double | string | sequence | mapping => exact nofun
  unfold Tree.interpolate
  split <;> exact kept _

theorem job_of_build {paths overrides : List String}
    (builds : (build surroundings store paths overrides).outcome = .ok result) :
    ∃ name, result.find jobNamePath = some name ∧ name ≠ .null := by
  rw [outcome_build] at builds
  obtain ⟨composed, -, builds⟩ := Outcome.bind_eq_ok.1 builds
  obtain ⟨prepared, -, builds⟩ := Outcome.bind_eq_ok.1 builds
  obtain ⟨changed, -, builds⟩ := Outcome.bind_eq_ok.1 builds
  obtain ⟨named, names, settles⟩ := Outcome.bind_eq_ok.1 builds
  obtain ⟨-, rfl⟩ := Attempt.outcome_eq_ok_iff.1 settles
  exact job_of_interpolate (job_of_setJobName names)

/-- A directory that was pinned is exact and stands in the tree as its text. -/
theorem directory_of_pinDirectory {here : List String} (written : ∀ name ∈ here, File.CanBeWritten name)
    (pins : pinDirectory here tree = .ok (result, some directory)) :
    directory.IsExact ∧ result.find directoryPath = some (.string directory.text)
      ∧ result.find jobNamePath = tree.find jobNamePath := by
  obtain ⟨found, chosen, pins⟩ := Outcome.bind_eq_ok.1 pins
  obtain ⟨pinned, assigned, pins⟩ := Outcome.bind_eq_ok.1 pins
  cases found with
  | none => cases pins
  | some path =>
    cases pins
    obtain ⟨works, rfl⟩ := Attempt.outcome_eq_ok_iff.1 assigned
    have names : ∀ name ∈ path.names, File.CanBeWritten name := by
      unfold directory? at chosen
      split at chosen
      · cases chosen
        exact File.Path.canBeWritten_ofText _
      · cases chosen
      · split at chosen
        · cases chosen
        · cases chosen
          exact File.Path.canBeWritten_ofText _
      · cases chosen
    exact ⟨File.Path.isExact_normal_absolute written names, Tree.find_of_assign works,
      Tree.find_assign_of_apart (by decide) (by decide)⟩

/-- The tree that a run with a directory ends with is settled if it holds no markers. -/
theorem settled_of_configuration {invocation : CommandLine.Invocation}
    (written : ∀ name ∈ store.here, File.CanBeWritten name)
    (configures : (CommandLine.configuration surroundings store invocation).outcome = .ok (result, some directory))
    (literal : ∀ text, result.HasString text → Template.hasMarker text.toList = false) : Settled result directory := by
  rw [CommandLine.outcome_configuration] at configures
  obtain ⟨tree, builds, pins⟩ := Outcome.bind_eq_ok.1 configures
  obtain ⟨exact, stands, same⟩ := directory_of_pinDirectory written pins
  refine ⟨exact, stands, ?_, literal⟩
  rw [same]
  exact job_of_build builds

end Run

end LayeredConfig
