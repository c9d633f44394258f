import LayeredConfig.CommandLine.Execute
import LayeredConfig.Proofs.Compose.Equation
import LayeredConfig.Proofs.Override.Stopped
import LayeredConfig.Proofs.Yaml.Reading

/-!
# Regular configurations

Whatever the files, the overrides and the surroundings, the tree of a run holds no key twice and only doubles that are
finite: `regular_configuration`. Each part of a run keeps this of the trees that it is given, and trees come only from
YAML texts.
-/

namespace LayeredConfig

open LayeredConfig.Tree (Regular)

variable {tree result : Tree} {store : File.Store} {surroundings : Surroundings}

theorem Attempt.outcome_eq_ok_iff {attempt : Attempt} :
    attempt.outcome = .ok result ↔ attempt.failure = none ∧ attempt.tree = result := by
  obtain ⟨tree, failure⟩ := attempt
  cases failure <;> simp [Attempt.outcome]

theorem Attempt.regular_outcome {attempt : Attempt} (regular : attempt.tree.Regular)
    (works : attempt.outcome = .ok result) : result.Regular :=
  (Attempt.outcome_eq_ok_iff.1 works).2 ▸ regular

/-! ## Composing files -/

namespace Compose

variable {place : File.Place} {child : File.Place → Except Error Tree} {base : File.Path}

theorem regular_readContent {content : ByteArray} (reads : readContent place content = .ok tree) : tree.Regular := by
  unfold readContent at reads
  split at reads
  · exact Yaml.regular_read reads
  · cases reads

theorem regular_place {composed : Tree} {target : Option KeyPath} (below : composed.Regular) (above : tree.Regular)
    (placed : Compose.place composed tree target = .ok result) : result.Regular := by
  unfold Compose.place at placed
  split at placed
  · cases placed
    exact above.merge below
  · split at placed
    · cases placed
      exact below.modify (fun node regular => above.merge regular) _
    · exact Attempt.regular_outcome (below.assign above (fun _ _ => trivial) true) placed

theorem regular_addEntry {composed entry : Tree} (children : ∀ other tree, child other = .ok tree → tree.Regular)
    (below : composed.Regular) (adds : addEntry store child base composed entry = .ok result) : result.Regular := by
  rcases addEntry_cases adds with rfl | ⟨inclusion, tree, -, -, -, loads, placed⟩
  · exact below
  · exact regular_place below (children _ tree loads) placed

theorem regular_composition (children : ∀ other tree, child other = .ok tree → tree.Regular)
    (composes : composition store child place = .ok result) : result.Regular := by
  obtain ⟨content, root, -, reads, empty | ⟨entries, composed, rfl, includes, rfl⟩ | ⟨-, rfl⟩⟩ :=
    composition_cases composes
  · exact empty.2 ▸ Tree.madeOf_empty
  · refine ((regular_readContent reads).erase includesKey).merge ?_
    rcases included_cases includes with ⟨-, rfl⟩ | ⟨items, -, run⟩
    · exact Tree.madeOf_empty
    · exact Outcome.invariant_of_foldlM_eq_ok (fun _ _ _ _ => regular_addEntry children) Tree.madeOf_empty run
  · exact regular_readContent reads

theorem regular_load {opened : List File.Place} {place : File.Place} {result : Tree}
    (loads : (load store opened place).outcome = .ok result) : result.Regular := by
  rw [outcome_load] at loads
  split at loads
  · cases loads
  · next fresh =>
    cases present : store.contentAt place with
    | error failure =>
      rw [composition, present] at loads
      cases loads
    | ok content =>
      have shorter := length_unopened_lt (mem_of_contentAt present) fresh
      exact regular_composition (fun other tree inner => regular_load inner) loads
termination_by (unopened store opened).length

theorem regular_file {path : String} (loads : (file store path).outcome = .ok result) : result.Regular := by
  unfold file at loads
  dsimp only at loads
  split at loads
  · cases loads
  · exact regular_load loads

theorem regular_filesOver {composed : Tree} {paths : List String} (regular : composed.Regular)
    (loads : (filesOver store composed paths).outcome = .ok result) : result.Regular := by
  induction paths generalizing composed with
  | nil =>
    cases loads
    exact regular
  | cons path rest ih =>
    rw [filesOver, Logged.outcome_bind] at loads
    obtain ⟨tree, first, loads⟩ := Outcome.bind_eq_ok.1 loads
    exact ih ((regular_file first).merge regular) loads

theorem regular_files {paths : List String} (loads : (files store paths).outcome = .ok result) : result.Regular :=
  regular_filesOver Tree.madeOf_empty loads

end Compose

/-! ## Changing what was composed -/

namespace Override

theorem regular_parseValue {text : List Char} (reads : parseValue text = .ok result) : result.Regular := by
  obtain ⟨document, reads, chosen⟩ := Outcome.bind_eq_ok.1 reads
  have regular := Yaml.regular_read reads
  split at chosen
  · split at chosen
    · next value found =>
      cases chosen
      exact (regular.lookup found).2
    · cases chosen
  · cases chosen

theorem regular_parse {expression : String} {override : Override} (reads : parse expression = .ok override) :
    override.value.Regular := by
  have body : ∀ {add body}, parseBody expression add body = .ok override → override.value.Regular := by
    intro add body reads
    unfold parseBody at reads
    split at reads
    · cases reads
    · cases reads
    · cases reads
    · obtain ⟨path, -, reads⟩ := Outcome.bind_eq_ok.1 reads
      obtain ⟨value, parses, reads⟩ := Outcome.bind_eq_ok.1 reads
      cases reads
      exact regular_parseValue parses
  unfold parse at reads
  split at reads
  · cases reads
  · cases reads
  · exact body reads
  · exact body reads

end Override

theorem Tree.regular_override (regular : tree.Regular) (overrides : List String) :
    (tree.override overrides).tree.Regular :=
  override_preserves madeOf_empty (fun _ _ change reads regular =>
    regular.assign (Override.regular_parse reads) (fun _ _ => trivial) change.add) regular overrides

theorem Tree.regular_interpolate (regular : tree.Regular) (surroundings : Surroundings) :
    (tree.interpolate surroundings).tree.Regular := by
  rw [Tree.interpolate]
  split <;> exact regular.mapStrings fun _ _ _ => trivial

/-! ## Run settings -/

namespace Run

theorem regular_childEntries {entries children : List (String × Tree)} {key label : String}
    (regular : (Tree.mapping entries).Regular) (found : childEntries entries key label = .ok children) :
    (Tree.mapping children).Regular := by
  unfold childEntries at found
  split at found
  · cases found
    exact Tree.madeOf_empty
  · next there =>
    cases found
    exact (regular.lookup there).2
  · cases found

theorem regular_fillDirectory {root : List (String × Tree)} (regular : (Tree.mapping root).Regular) :
    (fillDirectory root).tree.Regular := by
  unfold fillDirectory
  split
  · exact regular
  · next settings found =>
    have inner := regular_childEntries regular found
    split
    · exact regular.put trivial inner
    · next run found =>
      have innermost := regular_childEntries inner found
      refine regular.put trivial (inner.put trivial ?_)
      unfold withDirectory
      split
      · exact innermost
      · exact innermost.put trivial (.scalar rfl trivial)

theorem regular_ensureDefaults (regular : tree.Regular) : (ensureDefaults tree).tree.Regular := by
  unfold ensureDefaults
  split
  · exact regular_fillDirectory Tree.madeOf_empty
  · exact regular_fillDirectory regular
  · exact regular

theorem regular_setJobName {given : Option String} (regular : tree.Regular) :
    (setJobName surroundings given tree).tree.Regular := by
  have name : (Tree.string (jobNameOf surroundings given)).Regular := .scalar rfl trivial
  unfold setJobName
  dsimp only
  split
  · exact regular.assign name (fun _ _ => trivial) true
  · exact regular.modify (fun _ _ => name) _
  · exact regular

theorem regular_pinDirectory {here : List String} {directory : Option File.Path} (regular : tree.Regular)
    (pins : pinDirectory here tree = .ok (result, directory)) : result.Regular := by
  obtain ⟨found, -, pins⟩ := Outcome.bind_eq_ok.1 pins
  obtain ⟨pinned, assigned, pins⟩ := Outcome.bind_eq_ok.1 pins
  cases pins
  refine Attempt.regular_outcome (regular.assign ?_ (fun _ _ => trivial) false) assigned
  split <;> exact .scalar rfl trivial

/-- The parts of building a configuration, one after another. -/
theorem outcome_build (surroundings : Surroundings) (store : File.Store) (paths overrides : List String) :
    (build surroundings store paths overrides).outcome = (do
      let composed ← (Compose.files store paths).outcome
      let prepared ← (ensureDefaults composed).outcome
      let changed ← (prepared.override overrides).logged.outcome
      let named ← (setJobName surroundings none changed).outcome
      (named.interpolate surroundings).logged.outcome) := by
  simp only [build, Logged.outcome_bind]
  rfl

theorem regular_build {paths overrides : List String}
    (builds : (build surroundings store paths overrides).outcome = .ok result) : result.Regular := by
  rw [outcome_build] at builds
  obtain ⟨composed, loads, builds⟩ := Outcome.bind_eq_ok.1 builds
  obtain ⟨prepared, fills, builds⟩ := Outcome.bind_eq_ok.1 builds
  obtain ⟨changed, overrides, builds⟩ := Outcome.bind_eq_ok.1 builds
  obtain ⟨named, names, settles⟩ := Outcome.bind_eq_ok.1 builds
  have composed := Compose.regular_files loads
  have prepared := Attempt.regular_outcome (regular_ensureDefaults composed) fills
  have changed := Attempt.regular_outcome (Tree.regular_override prepared _) overrides
  have named := Attempt.regular_outcome (regular_setJobName changed) names
  exact Attempt.regular_outcome (Tree.regular_interpolate named surroundings) settles

end Run

namespace CommandLine

variable {invocation : Invocation}

theorem outcome_sources (store : File.Store) (given : List String) :
    (sources store given).outcome = .ok (Run.filesOf store given (some defaultFile)) := by
  unfold sources
  split
  · next none => rw [none]
  · next some => rfl

/-- The configuration of a run is built from its files and gets its directory at last. -/
theorem outcome_configuration (surroundings : Surroundings) (store : File.Store) (invocation : Invocation) :
    (configuration surroundings store invocation).outcome = (do
      let tree ← (Run.build surroundings store (Run.filesOf store invocation.files (some defaultFile))
        invocation.overrides).outcome
      Run.pinDirectory store.here tree) := by
  simp only [configuration, Logged.outcome_bind, outcome_sources]
  rfl

/-- The tree of a run is regular. -/
theorem regular_configuration {directory : Option File.Path}
    (configures : (configuration surroundings store invocation).outcome = .ok (result, directory)) :
    result.Regular := by
  rw [outcome_configuration] at configures
  obtain ⟨tree, builds, pins⟩ := Outcome.bind_eq_ok.1 configures
  exact Run.regular_pinDirectory (Run.regular_build builds) pins

end CommandLine

end LayeredConfig
