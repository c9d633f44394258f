import LayeredConfig.Proofs.Run.Settled

/-!
# The run directory of a build

Whether the tree that a build ends with has a run directory is decided by the last override that is about its place:
the settings are filled in before the overrides, and nothing after them puts anything there. `pinDirectory_of_build`
says when there is one, what it is then, and that pinning fails where there is none.
-/

namespace LayeredConfig

/-! ## What overrides leave at a path -/

namespace Override

variable {tree : Tree} {path : KeyPath} {change : Override}

/-- Whether a node stands at a path after an override, which says so if it is about that path. -/
def decides? (path : KeyPath) (change : Override) : Option Bool :=
  if change.path <+: path then some (change.value.find (path.drop change.path.length)).isSome
  else if path <+: change.path then some true
  else none

/-- Whether a node stands at a path after overrides: the last one that is about the path decides. -/
def decided (path : KeyPath) (before : Bool) (changes : List Override) : Bool :=
  changes.foldl (fun there change => (change.decides? path).getD there) before

theorem isSome_find_of_apply (works : (change.apply tree).failure = none) :
    ((change.apply tree).tree.find path).isSome = (change.decides? path).getD (tree.find path).isSome := by
  have placed : (change.apply tree).tree.find change.path = some change.value := Tree.find_of_assign works
  unfold decides?
  split
  · next above =>
    obtain ⟨rest, rfl⟩ := above
    rw [Tree.find_append, placed, List.drop_left]
    rfl
  · next front =>
    split
    · next below =>
      obtain ⟨rest, same⟩ := below
      rw [← same, Tree.find_append] at placed
      obtain ⟨node, found, -⟩ := Option.bind_eq_some_iff.1 placed
      rw [found]
      rfl
    · next back => exact congrArg Option.isSome (Tree.find_assign_of_apart front back)

theorem find_of_apply (apart : change.decides? path = none) : (change.apply tree).tree.find path = tree.find path := by
  unfold decides? at apart
  split at apart
  · cases apart
  · next front =>
    split at apart
    · cases apart
    · next back => exact Tree.find_assign_of_apart front back

end Override

/-- Overrides that were applied can all be read, and the last one about a path decides whether a node stands there. -/
theorem Tree.find_of_override {overrides : List String} {tree : Tree}
    (works : (tree.override overrides).failure = none) :
    ∃ changes, overrides.mapM Override.parse = .ok changes ∧ ∀ path,
      ((tree.override overrides).tree.find path).isSome = Override.decided path (tree.find path).isSome changes
        ∧ ((∀ change ∈ changes, change.decides? path = none) →
          (tree.override overrides).tree.find path = tree.find path) := by
  induction overrides generalizing tree with
  | nil => exact ⟨[], rfl, fun path => ⟨rfl, fun _ => rfl⟩⟩
  | cons expression rest ih =>
    obtain ⟨change, reads, step⟩ := applied_of_works works
    rw [override_of_applied reads step] at works ⊢
    obtain ⟨changes, all, stands⟩ := ih works
    refine ⟨change :: changes, ?_, fun path => ?_⟩
    · rw [List.mapM_cons, reads, all]
      rfl
    · obtain ⟨last, same⟩ := stands path
      refine ⟨?_, fun apart => ?_⟩
      · rw [last, Override.isSome_find_of_apply step]
        rfl
      · rw [List.forall_mem_cons] at apart
        exact (same apart.2).trans (Override.find_of_apply apart.1)

namespace Run

variable {tree result : Tree} {surroundings : Surroundings} {store : File.Store}

/-! ## What the parts of a build leave at the place of the run directory -/

/-- Filling in the settings leaves a run directory that is there, and puts the default one where there is none. -/
theorem directory_of_ensureDefaults (fills : (ensureDefaults tree).outcome = .ok result) :
    result.find directoryPath = some ((tree.find directoryPath).getD (.string defaultDirectory)) := by
  obtain ⟨works, rfl⟩ := Attempt.outcome_eq_ok_iff.1 fills
  have like := ensureDefaults_like_fill tree
  rw [like.1, (Tree.filled_fill apart_settings.ne_nil (like.works.1 works)).placed]
  cases tree.find directoryPath with
  | none => rfl
  | some node => cases node <;> rfl

theorem directory_of_setJobName {given : Option String}
    (names : (setJobName surroundings given tree).outcome = .ok result) :
    result.find directoryPath = tree.find directoryPath := by
  obtain ⟨-, rfl⟩ := Attempt.outcome_eq_ok_iff.1 names
  rw [setJobName_eq_fill]
  exact apart_settings.symm.find_fill

/-- Interpolation leaves a node where one stood, and gives a string what it expands to. -/
theorem find_of_interpolate (path : KeyPath) (distinct : tree.HasDistinctKeys)
    (settles : (tree.interpolate surroundings).logged.outcome = .ok result) :
    (result.find path).isSome = (tree.find path).isSome
      ∧ ∀ template, tree.find path = some (.string template) → ∃ text, result.find path = some (.string text)
        ∧ Interpolation.Expands surroundings (Interpolation.Reads result) template.toList text.toList := by
  obtain ⟨succeeds, rfl⟩ := Attempt.outcome_eq_ok_iff.1 settles
  rcases Interpolation.interpolate_cases surroundings distinct with ⟨progress, -, final, supported, done⟩ | ⟨e, fails, -⟩
  · dsimp only
    rw [final, Interpolation.find_apply]
    refine ⟨Option.isSome_map, fun template found => ?_⟩
    rw [found]
    exact ⟨_, rfl, Interpolation.expands_final distinct supported done (Tree.nodeAt_of_find found)⟩
  · cases succeeds.symm.trans fails

theorem first_defaultDirectory : Interpolation.FirstPlaceholder defaultDirectory.toList "outputs/".toList
    (Template.nowMark ++ "%Y-%m-%d_%H-%M-%S".toList) [] :=
  Interpolation.firstPlaceholder_of_split rfl rfl

/-- The default run directory expands to one that is named for the moment of the run. -/
theorem expands_defaultDirectory {value : KeyPath → List Char → Prop} {text : String}
    (expands : Interpolation.Expands surroundings value defaultDirectory.toList text.toList) :
    text = "outputs/" ++ String.ofList (surroundings.now.write "%Y-%m-%d_%H-%M-%S".toList) := by
  obtain ⟨shown, more, stands, rest, same⟩ := (Interpolation.expands_iff_of_first first_defaultDirectory).1 expands
  cases rest.of_literal rfl
  rcases Interpolation.standsFor_cases stands with ⟨pattern, body, rfl⟩ | ⟨setting, body, -⟩ | ⟨noTime, -⟩
  · cases List.append_cancel_left body
    refine String.toList_injective (same.trans ?_)
    rw [List.append_nil, String.toList_append]
    exact congrArg _ String.toList_ofList.symm
  · cases body
  · exact absurd (List.prefix_append _ _) noTime

/-! ## Pinning -/

/-- Why no run directory can be put into a tree that has none, but run settings. -/
def placeless (tree : Tree) : Error :=
  match tree.find [settingsKey, "run"] with
  | none => .componentAbsent "run"
  | some (.mapping _) => .keyAbsent "dir"
  | some node => .componentNotMapping "run" node.kind

theorem assign_of_placeless {settings : List (String × Tree)} {value : Tree}
    (found : tree.find [settingsKey] = some (.mapping settings)) (absent : tree.find directoryPath = none) :
    (tree.assign directoryPath value false).failure = some (placeless tree) := by
  obtain ⟨root, child, rfl, below, inside⟩ := Tree.find_cons_eq_some found
  rw [Tree.find_nil] at inside
  cases inside
  have run : (Tree.mapping root).find [settingsKey, "run"] = settings.lookup "run" := by
    rw [Tree.find_mapping_cons, below, Option.bind_some, Tree.find_mapping_cons]
    cases settings.lookup "run" with
    | none => rfl
    | some node => exact Tree.find_nil node
  rw [directoryPath, Tree.find_mapping_cons, below, Option.bind_some, Tree.find_mapping_cons] at absent
  simp only [Tree.assign, directoryPath, List.isEmpty_cons, Bool.false_eq_true, if_false, Tree.assignEntries, below,
    placeless, run]
  cases there : settings.lookup "run" with
  | none => rfl
  | some node =>
    rw [there, Option.bind_some] at absent
    cases node with
    | mapping entries =>
      rw [Tree.find_mapping_cons] at absent
      cases inner : entries.lookup "dir" with
      | none => simp only [inner]
      | some node =>
        rw [inner, Option.bind_some, Tree.find_nil] at absent
        cases absent
    | null | bool | int | double | string | sequence => rfl

/-- What pinning makes of a tree with run settings, by what stands at the place of the run directory. -/
theorem pinDirectory_cases {settings : List (String × Tree)} (here : List String)
    (found : tree.find [settingsKey] = some (.mapping settings)) :
    match tree.find directoryPath with
    | none => pinDirectory here tree = .error (placeless tree)
    | some .null => pinDirectory here tree = .ok (tree, none)
    | some (.string text) =>
      if text.isEmpty then ∃ pinned, pinDirectory here tree = .ok (pinned, none) ∧ pinned.find directoryPath = some .null
      else ∃ pinned directory, pinDirectory here tree = .ok (pinned, some directory)
        ∧ directory = ((File.Path.ofText text).absolute here).normal
        ∧ pinned.find directoryPath = some (.string directory.text)
    | some _ => pinDirectory here tree = .error .runDirectoryKind := by
  -- What is read decides which value is put in; putting it in works where something stands already.
  have pins {directory : Option File.Path} (reads : directory? tree = .ok directory) :
      pinDirectory here tree = (do
        let pinned ← (tree.assign directoryPath ((directory.map fun path => (path.absolute here).normal).elim .null
          fun path => .string path.text) false).outcome
        return (pinned, directory.map fun path => (path.absolute here).normal)) := by
    rw [pinDirectory, reads]
    cases directory <;> rfl
  have placed {node : Tree} (value : Tree) (stands : tree.find directoryPath = some node) :
      ∃ pinned, (tree.assign directoryPath value false).outcome = .ok pinned
        ∧ pinned.find directoryPath = some value := by
    have works : (tree.assign directoryPath value false).failure = none :=
      Tree.assign_of_present (List.cons_ne_nil _ _) stands
    exact ⟨_, Attempt.outcome_eq_ok_iff.2 ⟨works, rfl⟩, Tree.find_of_assign works⟩
  cases stands : tree.find directoryPath with
  | none =>
    have reads : directory? tree = .ok (some (.ofText defaultDirectory)) := by rw [directory?, stands]
    have fails (value : Tree) : (tree.assign directoryPath value false).outcome = .error (placeless tree) := by
      rw [Attempt.outcome, assign_of_placeless found stands]
    dsimp only
    rw [pins reads, fails]
    rfl
  | some node =>
    cases node with
    | null =>
      have reads : directory? tree = .ok none := by rw [directory?, stands]
      have same : tree.assign directoryPath .null false = ⟨tree, none⟩ :=
        Tree.assign_of_find (List.cons_ne_nil _ _) stands
      dsimp only
      rw [pins reads, Option.map_none, Option.elim_none, same]
      rfl
    | string text =>
      have reads : directory? tree = .ok (if text.isEmpty then none else some (.ofText text)) := by
        rw [directory?, stands]
      dsimp only
      split
      · next empty =>
        rw [if_pos empty] at reads
        obtain ⟨pinned, works, there⟩ := placed .null stands
        refine ⟨pinned, ?_, there⟩
        rw [pins reads, Option.map_none, Option.elim_none, works]
        rfl
      · next filled =>
        rw [if_neg filled] at reads
        obtain ⟨pinned, works, there⟩ := placed (.string ((File.Path.ofText text).absolute here).normal.text) stands
        refine ⟨pinned, _, ?_, rfl, there⟩
        rw [pins reads, Option.map_some, Option.elim_some, works]
        rfl
    | bool | int | double | sequence | mapping =>
      dsimp only
      rw [pinDirectory, directory?, stands]
      rfl

/-! ## Whole builds -/

/-- A build that succeeds has a run directory if and only if the last override about its place puts one there, or no
override is about it; if there was none in the files either, it is the default one for the moment of the run. Pinning
takes the directory from the tree only: where none stands, or one that is neither text nor null, it fails. -/
theorem pinDirectory_of_build {paths overrides : List String}
    (builds : (build surroundings store paths overrides).outcome = .ok result) :
    ∃ composed changes, (Compose.files store paths).outcome = .ok composed
      ∧ overrides.mapM Override.parse = .ok changes
      ∧ (result.find directoryPath).isSome = Override.decided directoryPath true changes
      ∧ (composed.find directoryPath = none → (∀ change ∈ changes, change.decides? directoryPath = none) →
          result.find directoryPath
            = some (.string ("outputs/" ++ String.ofList (surroundings.now.write "%Y-%m-%d_%H-%M-%S".toList))))
      ∧ ∀ here, match result.find directoryPath with
        | none => pinDirectory here result = .error (placeless result)
        | some .null => pinDirectory here result = .ok (result, none)
        | some (.string text) =>
          if text.isEmpty then
            ∃ pinned, pinDirectory here result = .ok (pinned, none) ∧ pinned.find directoryPath = some .null
          else ∃ pinned directory, pinDirectory here result = .ok (pinned, some directory)
            ∧ directory = ((File.Path.ofText text).absolute here).normal
            ∧ pinned.find directoryPath = some (.string directory.text)
        | some _ => pinDirectory here result = .error .runDirectoryKind := by
  have job := job_of_build builds
  rw [outcome_build] at builds
  obtain ⟨composed, loads, builds⟩ := Outcome.bind_eq_ok.1 builds
  obtain ⟨prepared, fills, builds⟩ := Outcome.bind_eq_ok.1 builds
  obtain ⟨changed, changes, builds⟩ := Outcome.bind_eq_ok.1 builds
  obtain ⟨named, names, settles⟩ := Outcome.bind_eq_ok.1 builds
  have prepared_regular := Attempt.regular_outcome (regular_ensureDefaults (Compose.regular_files loads)) fills
  have changed_regular := Attempt.regular_outcome (Tree.regular_override prepared_regular _) changes
  have named_regular := Attempt.regular_outcome (regular_setJobName changed_regular) names
  obtain ⟨works, rfl⟩ := Attempt.outcome_eq_ok_iff.1 changes
  obtain ⟨read, reads, decides⟩ := Tree.find_of_override works
  obtain ⟨stands, expands⟩ := find_of_interpolate directoryPath named_regular.hasDistinctKeys settles
  have filled := directory_of_ensureDefaults fills
  have same := directory_of_setJobName names
  obtain ⟨decided, kept⟩ := decides directoryPath
  rw [filled] at decided kept
  refine ⟨composed, read, loads, reads, ?_, fun absent apart => ?_, fun here => ?_⟩
  · rw [stands, same]
    exact decided
  · have template : named.find directoryPath = some (.string defaultDirectory) := by
      rw [same, kept apart, absent]
      rfl
    obtain ⟨text, found, expanded⟩ := expands defaultDirectory template
    rw [found, expands_defaultDirectory expanded]
  · obtain ⟨name, found, -⟩ := job
    obtain ⟨root, node, rfl, below, inside⟩ := Tree.find_cons_eq_some found
    obtain ⟨settings, -, rfl, -⟩ := Tree.find_cons_eq_some inside
    have settled : (Tree.mapping root).find [settingsKey] = some (.mapping settings) := by
      rw [Tree.find_mapping_cons, below, Option.bind_some, Tree.find_nil]
    exact pinDirectory_cases here settled

/-- The configuration of a run without files and without a program name, from its settings of the run directory. -/
def bareTree (run : List (String × Tree)) : Tree :=
  .mapping [("hydra", .mapping [("run", .mapping run), ("job", .mapping [("name", .string "app")])])]

theorem build_bareTree {overrides : List String} {run : List (String × Tree)}
    (changes : ((Tree.mapping [("hydra", .mapping [("run", .mapping [("dir", .string defaultDirectory)])])]).override
      overrides).logged.outcome = .ok (.mapping [("hydra", .mapping [("run", .mapping run)])]))
    (settles : ((bareTree run).interpolate Interpolation.midnight).logged.outcome = .ok result) :
    (build Interpolation.midnight ⟨[], ["work"]⟩ [] overrides).outcome = .ok result := by
  rw [outcome_build]
  simp only [Outcome.bind_eq_ok]
  exact ⟨_, rfl, _, rfl, _, changes, _, rfl, settles⟩

theorem settles_of_literal {run : List (String × Tree)}
    (literal : (bareTree run).MadeOf (fun node => ∀ text, node = .string text → Template.hasMarker text.toList = false)
      fun _ => True) : ((bareTree run).interpolate Interpolation.midnight).logged.outcome = .ok (bareTree run) :=
  Attempt.outcome_eq_ok_iff.2 (Interpolation.interpolate_of_literal _ literal.hasDistinctKeys
    ((Tree.madeOf_texts_iff literal).1 literal).1)

theorem settles_default : ∃ result,
    ((bareTree [("dir", .string defaultDirectory)]).interpolate Interpolation.midnight).logged.outcome = .ok result := by
  have texts : (bareTree [("dir", .string defaultDirectory)]).MadeOf (fun node => ∀ text, node = .string text →
      text = defaultDirectory ∨ Template.hasMarker text.toList = false) fun _ => True := by decide +kernel
  have resolvable : Interpolation.Resolvable Interpolation.midnight (bareTree [("dir", .string defaultDirectory)]) := by
    refine Interpolation.resolvable_of_free fun text has => ?_
    rcases ((Tree.madeOf_texts_iff texts).1 texts).1 text has with rfl | literal
    · refine ⟨.placeholder first_defaultDirectory (.literal rfl), fun expression evaluates => ?_⟩
      rcases (Interpolation.evaluates_iff_of_first first_defaultDirectory).1 evaluates with ⟨noTime, -⟩ | ⟨_, body, -⟩ | rest
      · exact noTime (List.prefix_append _ _)
      · cases body
      · cases rest.hasMarker
    · exact Interpolation.free_of_literal literal
  exact ⟨_, Attempt.outcome_eq_ok_iff.2 ⟨(Interpolation.succeeds_iff _ texts.hasDistinctKeys).2 resolvable, rfl⟩⟩

/-- Without overrides there is the default run directory, one that is given stays, and a setting that is emptied takes
it away. -/
theorem pinDirectory_of_build_bareTree :
    (∃ result, (build Interpolation.midnight ⟨[], ["work"]⟩ [] []).outcome = .ok result
      ∧ result.find directoryPath = some (.string "outputs/2024-01-01_00-00-00"))
      ∧ (build Interpolation.midnight ⟨[], ["work"]⟩ [] ["hydra.run.dir=out"]).outcome
        = .ok (bareTree [("dir", .string "out")])
      ∧ (∃ pinned,
        pinDirectory ["work"] (bareTree [("dir", .string "out")]) = .ok (pinned, some ⟨.top, ["work", "out"]⟩)
        ∧ pinned.find directoryPath = some (.string "/work/out"))
      ∧ (build Interpolation.midnight ⟨[], ["work"]⟩ [] ["hydra.run=\x7b\x7d"]).outcome = .ok (bareTree [])
      ∧ pinDirectory ["work"] (bareTree []) = .error (.keyAbsent "dir") := by
  obtain ⟨result, settles⟩ := settles_default
  have default : (build Interpolation.midnight ⟨[], ["work"]⟩ [] []).outcome = .ok result := build_bareTree rfl settles
  have given : (build Interpolation.midnight ⟨[], ["work"]⟩ [] ["hydra.run.dir=out"]).outcome
      = .ok (bareTree [("dir", .string "out")]) :=
    build_bareTree (by decide +kernel) (settles_of_literal (by decide +kernel))
  have emptied : (build Interpolation.midnight ⟨[], ["work"]⟩ [] ["hydra.run=\x7b\x7d"]).outcome = .ok (bareTree []) :=
    build_bareTree (by decide +kernel) (settles_of_literal (by decide +kernel))
  obtain ⟨composed, changes, loads, reads, -, named, -⟩ := pinDirectory_of_build default
  obtain ⟨-, -, -, -, -, -, works⟩ := pinDirectory_of_build given
  obtain ⟨-, -, -, -, -, -, fails⟩ := pinDirectory_of_build emptied
  obtain ⟨pinned, directory, pins, same, there⟩ := works ["work"]
  have place : ((File.Path.ofText "out").absolute ["work"]).normal = ⟨.top, ["work", "out"]⟩ := by decide +kernel
  rw [same, place] at pins there
  refine ⟨⟨result, default, ?_⟩, given, ⟨pinned, pins, there⟩, emptied, fails ["work"]⟩
  cases loads
  cases reads
  rw [named rfl nofun]
  decide +kernel

end Run

end LayeredConfig
