import LayeredConfig.Proofs.Run.Regular
import LayeredConfig.Proofs.Tree.Agreement

/-!
# Filling in settings

The run directory and the job name are filled in by different code, yet in the same way: both are `Tree.fill` at their
paths, up to the wording of a failure (`ensureDefaults_like_fill`, `setJobName_eq_fill`). Filling in fails only where a node
that is no mapping is in the way, and changes nothing then (`fill_of_failure`). Otherwise it keeps what is there
(`filled_fill`), so that a second time it has nothing to do (`fill_fill`), and two of them may come in either order
(`agree_fill_fill`). For the two settings this is `settings_only_filled`.
-/

namespace LayeredConfig

namespace Tree

variable {tree after value value' node : Tree} {path other : KeyPath} {overNull overNull' : Bool} {error : Error}

/-- Whether a path has room for a value, from what it leads to: nothing, or a null that counts as nothing. -/
def isVacant (overNull : Bool) : Option Tree → Bool
  | none => true
  | some .null => overNull
  | some _ => false

/-- Puts a value at a path that has room for it. -/
def fill (tree : Tree) (path : KeyPath) (value : Tree) (overNull : Bool) : Attempt :=
  if isVacant overNull (tree.find path) then tree.assign path value (tree.find path).isNone else ⟨tree, none⟩

/-- A node is there still, or it is a mapping and has new entries behind its own. -/
def Stays (after : Tree) (path : KeyPath) (node : Tree) : Prop :=
  after.find path = some node
    ∨ ∃ entries more, node = .mapping entries ∧ after.find path = some (.mapping more)
      ∧ entries.map Prod.fst <+: more.map Prod.fst

/-- What has become of a tree that was filled in at a path: the value is there if there was room for it, and every node
stays but a null root, which is a mapping now, and a null that counted as nothing. -/
structure Filled (before after : Tree) (path : KeyPath) (value : Tree) (overNull : Bool) : Prop where
  placed : after.find path = if isVacant overNull (before.find path) then some value else before.find path
  stays : ∀ place node, before.find place = some node →
    after.Stays place node ∨ node = .null ∧ (place = [] ∨ place = path ∧ overNull = true)
  root : ∃ entries, after = .mapping entries

/-! ## One filling -/

theorem fill_of_vacant (vacant : isVacant overNull (tree.find path) = true) :
    tree.fill path value overNull = tree.assign path value (tree.find path).isNone :=
  if_pos vacant

theorem fill_of_taken (taken : isVacant overNull (tree.find path) = false) :
    tree.fill path value overNull = ⟨tree, none⟩ := by
  rw [fill, taken, if_neg Bool.false_ne_true]

theorem exists_find_of_taken (taken : isVacant overNull (tree.find path) = false) : ∃ node, tree.find path = some node := by
  cases found : tree.find path with
  | none =>
    rw [found] at taken
    cases taken
  | some node => exact ⟨node, rfl⟩

theorem isVacant_some (vacant : isVacant overNull (some node) = true) : node = .null ∧ overNull = true := by
  cases node with
  | null => exact ⟨rfl, vacant⟩
  | bool | int | double | string | sequence | mapping => cases vacant

theorem not_blocked_of_find (below : path ≠ []) (found : tree.find path = some node) : ¬tree.ground.Blocked path := by
  intro blocked
  rw [← find_ground below, blocked.find_eq_none] at found
  cases found

/-- Nothing but a node in the way keeps a value from being filled in. -/
theorem fill_succeeds_iff (below : path ≠ []) :
    (tree.fill path value overNull).failure = none ↔ ¬tree.ground.Blocked path := by
  cases vacant : isVacant overNull (tree.find path) with
  | true => rw [fill_of_vacant vacant, assign_succeeds_iff below, find_ground below, Option.not_isNone, and_iff_left rfl]
  | false =>
    obtain ⟨node, found⟩ := exists_find_of_taken vacant
    rw [fill_of_taken vacant]
    exact iff_of_true rfl (not_blocked_of_find below found)

/-- A filling that fails meets a conflict and leaves the tree as it was. -/
theorem fill_of_failure (below : path ≠ []) (fails : (tree.fill path value overNull).failure = some error) :
    error.category = .conflict ∧ (tree.fill path value overNull).tree = tree := by
  have blocked : tree.ground.Blocked path := by
    refine not_not.1 fun clear => ?_
    rw [(fill_succeeds_iff below).2 clear] at fails
    cases fails
  have filled : tree ≠ .null := by
    rintro rfl
    obtain ⟨key, rest, rfl⟩ := List.exists_cons_of_ne_nil below
    exact not_blocked_of_absent rfl blocked
  cases vacant : isVacant overNull (tree.find path) with
  | true =>
    rw [fill_of_vacant vacant] at fails ⊢
    refine ⟨?_, (spared_of_assign fails).eq filled⟩
    cases root : tree.ground.isMapping with
    | false =>
      rw [assign_of_not_mapping root below] at fails
      cases fails
      rfl
    | true =>
      rcases (stops_of_assign root below fails).cases with ⟨conflict, -⟩ | ⟨-, -, -, clear⟩
      · exact conflict
      · exact absurd blocked clear
  | false =>
    rw [fill_of_taken vacant] at fails
    cases fails

/-- A node on the way to the path of an assignment is a mapping and keeps its entries. -/
theorem stays_of_assign {add : Bool} (below : path ≠ []) (works : (tree.assign path value add).failure = none)
    (found : tree.ground.find other = some node) (above : other <+: path) (strict : other ≠ path) :
    (tree.assign path value add).tree.Stays other node := by
  obtain ⟨rest, rfl⟩ := above
  obtain ⟨key, rest, rfl⟩ := List.exists_cons_of_ne_nil (l := rest) fun none => strict (none ▸ (List.append_nil _).symm)
  obtain ⟨more, there, keys⟩ := lengthened_assign below works other key rest rfl
  have mapping : node.isMapping = true := by
    refine Bool.not_eq_false _ ▸ fun noMapping => ((assign_succeeds_iff below).1 works).1 ?_
    exact ⟨other, node, List.prefix_append _ _, strict, found, noMapping⟩
  obtain ⟨entries, rfl⟩ := exists_entries mapping
  refine .inr ⟨entries, more, rfl, there, ?_⟩
  have olds : tree.ground.keysAt other = entries.map Prod.fst := by
    rw [keysAt, found]
    rfl
  rw [keys, olds]
  split
  · exact List.prefix_rfl
  · exact List.prefix_append _ _

theorem find_ground_of_find (found : tree.find other = some node) (filled : ¬(other = [] ∧ node = .null)) :
    tree.ground.find other = some node := by
  cases other with
  | nil =>
    rw [find_nil] at found
    cases found
    cases tree with
    | null => exact absurd ⟨rfl, rfl⟩ filled
    | bool | int | double | string | sequence | mapping => exact find_nil _
  | cons key rest => rwa [find_ground (List.cons_ne_nil _ _)]

/-- A node stays where a value is assigned to a path that had room for it, a null root and a null at the path apart. -/
theorem stays_or_null_of_assign {add : Bool} (below : path ≠ []) (works : (tree.assign path value add).failure = none)
    (vacant : isVacant overNull (tree.find path) = true) (found : tree.find other = some node) :
    (tree.assign path value add).tree.Stays other node ∨ node = .null ∧ (other = [] ∨ other = path ∧ overNull = true) := by
  by_cases apart : Apart path other
  · exact .inl (.inl (apart.find_assign.trans found))
  by_cases null : other = [] ∧ node = .null
  · exact .inr ⟨null.2, .inl null.1⟩
  by_cases same : other = path
  · subst same
    rw [found] at vacant
    exact .inr ⟨(isVacant_some vacant).1, .inr ⟨rfl, (isVacant_some vacant).2⟩⟩
  by_cases above : other <+: path
  · exact .inl (stays_of_assign below works (find_ground_of_find found null) above same)
  · -- only below a mapping stands anything, and a mapping would not be vacant
    have under : path <+: other := not_not.1 fun side => apart ⟨side, above⟩
    obtain ⟨entries, mapping⟩ := exists_mapping_of_find found under above
    rw [mapping] at vacant
    cases vacant

/-- What stands below a root stands in a mapping. -/
theorem exists_entries_of_find (below : path ≠ []) (found : tree.find path = some node) :
    ∃ entries, tree = .mapping entries := by
  obtain ⟨key, rest, rfl⟩ := List.exists_cons_of_ne_nil below
  obtain ⟨entries, -, root, -⟩ := find_cons_eq_some found
  exact ⟨entries, root⟩

/-- A filling that succeeds keeps what it finds. -/
theorem filled_fill (below : path ≠ []) (works : (tree.fill path value overNull).failure = none) :
    tree.Filled (tree.fill path value overNull).tree path value overNull := by
  cases vacant : isVacant overNull (tree.find path) with
  | true =>
    rw [fill_of_vacant vacant] at works ⊢
    have placed := find_of_assign works
    exact ⟨by rw [placed, vacant, if_pos rfl], fun _ _ => stays_or_null_of_assign below works vacant,
      exists_entries_of_find below placed⟩
  | false =>
    obtain ⟨node, found⟩ := exists_find_of_taken vacant
    rw [fill_of_taken vacant]
    exact ⟨by rw [vacant, if_neg Bool.false_ne_true], fun _ _ there => .inl (.inl there),
      exists_entries_of_find below found⟩

theorem Filled.exists_find (filled : tree.Filled after path value overNull) : ∃ node, after.find path = some node := by
  rw [filled.placed]
  cases vacant : isVacant overNull (tree.find path) with
  | true => exact ⟨value, rfl⟩
  | false => exact exists_find_of_taken vacant

theorem hasDistinctKeys_fill (distinct : tree.HasDistinctKeys) (inner : value.HasDistinctKeys) :
    (tree.fill path value overNull).tree.HasDistinctKeys := by
  unfold fill
  split
  · exact ((madeOf_of_hasDistinctKeys tree distinct).assign (madeOf_of_hasDistinctKeys value inner)
      (fun _ _ => trivial) _).hasDistinctKeys
  · exact distinct

/-- What was filled in is there the next time. -/
theorem fill_fill (below : path ≠ []) (works : (tree.fill path value overNull).failure = none)
    (taken : isVacant overNull (some value) = false) (value' : Tree) :
    (tree.fill path value overNull).tree.fill path value' overNull = ⟨(tree.fill path value overNull).tree, none⟩ := by
  refine fill_of_taken ?_
  rw [(filled_fill below works).placed]
  split
  · exact taken
  · next full => exact Bool.not_eq_true _ ▸ full

/-! ## Two fillings -/

theorem Apart.find_fill (apart : Apart path other) : (tree.fill path value overNull).tree.find other = tree.find other := by
  unfold fill
  split
  · exact apart.find_assign
  · rfl

/-- A filling elsewhere neither clears the way to a path nor blocks it. -/
theorem blocked_fill_iff (works : (tree.fill path value overNull).failure = none) (apart : Apart path other) :
    (tree.fill path value overNull).tree.ground.Blocked other ↔ tree.ground.Blocked other := by
  unfold fill at works ⊢
  split at works
  · next vacant =>
    rw [if_pos vacant]
    exact blocked_assign_iff works apart
  · next taken => rw [if_neg taken]

theorem fill_fill_succeeds_iff (works : (tree.fill path value overNull).failure = none) (apart : Apart path other) :
    ((tree.fill path value overNull).tree.fill other value' overNull').failure = none
      ↔ (tree.fill other value' overNull').failure = none := by
  rw [fill_succeeds_iff apart.symm.ne_nil, fill_succeeds_iff apart.symm.ne_nil, blocked_fill_iff works apart]

theorem agree_fill_fill_of_taken (apart : Apart path other) (taken : isVacant overNull (tree.find path) = false) :
    ((tree.fill path value overNull).tree.fill other value' overNull').tree.Agree
      ((tree.fill other value' overNull').tree.fill path value overNull).tree := by
  have same : (tree.fill other value' overNull').tree.find path = tree.find path := apart.symm.find_fill
  have later := taken
  rw [← same] at later
  rw [fill_of_taken taken, fill_of_taken later]
  exact fun _ => .inl rfl

/-- Two fillings that succeed leave trees that agree, whichever comes first. -/
theorem agree_fill_fill (apart : Apart path other) (works : (tree.fill path value overNull).failure = none)
    (works' : (tree.fill other value' overNull').failure = none) :
    ((tree.fill path value overNull).tree.fill other value' overNull').tree.Agree
      ((tree.fill other value' overNull').tree.fill path value overNull).tree := by
  cases vacant : isVacant overNull (tree.find path) with
  | false => exact agree_fill_fill_of_taken apart vacant
  | true =>
    cases vacant' : isVacant overNull' (tree.find other) with
    | false => exact (agree_fill_fill_of_taken apart.symm vacant').symm
    | true =>
      have same : (tree.assign path value (tree.find path).isNone).tree.find other = tree.find other := apart.find_assign
      have same' : (tree.assign other value' (tree.find other).isNone).tree.find path = tree.find path :=
        apart.symm.find_assign
      rw [fill_of_vacant vacant] at works ⊢
      rw [fill_of_vacant vacant'] at works' ⊢
      rw [fill_of_vacant (same.symm ▸ vacant'), fill_of_vacant (same'.symm ▸ vacant), same, same']
      exact agree_assign_assign apart works works'

/-! ## Replacing what is there -/

theorem assignEntries_of_present {entries : List (String × Tree)} (below : path ≠ [])
    (found : (Tree.mapping entries).find path = some node) :
    (assignEntries value false path entries).2 = none
      ∧ Tree.mapping (assignEntries value false path entries).1 = (Tree.mapping entries).modify (fun _ => value) path := by
  induction path generalizing entries with
  | nil => exact absurd rfl below
  | cons key rest ih =>
    rw [find_mapping_cons] at found
    obtain ⟨child, there, inside⟩ := Option.bind_eq_some_iff.1 found
    rw [modify, there]
    cases rest with
    | nil => simp only [assignEntries, there, modify, and_self]
    | cons next rest =>
      obtain ⟨children, -, rfl, -⟩ := find_cons_eq_some inside
      obtain ⟨works, same⟩ := ih (List.cons_ne_nil _ _) inside
      simp only [assignEntries, there, works, same, and_self]

/-- Assigning to a node that is there is changing that node. -/
theorem assign_of_present_eq (below : path ≠ []) (found : tree.find path = some node) :
    tree.assign path value false = ⟨tree.modify (fun _ => value) path, none⟩ := by
  obtain ⟨key, rest, rfl⟩ := List.exists_cons_of_ne_nil below
  obtain ⟨entries, -, rfl, -⟩ := find_cons_eq_some found
  obtain ⟨works, same⟩ := assignEntries_of_present below found
  rw [assign_of_ground rfl below, works, same]

end Tree

/-! ## The two settings -/

/-- Two attempts leave the same tree and fail alike, in other words at most. -/
def Attempt.Like (a b : Attempt) : Prop :=
  a.tree = b.tree ∧ a.failure.map Error.category = b.failure.map Error.category

theorem Attempt.Like.works {a b : Attempt} (like : a.Like b) : a.failure = none ↔ b.failure = none := by
  rw [← Option.map_eq_none_iff (f := Error.category), like.2, Option.map_eq_none_iff]

theorem Attempt.Like.fails {a b : Attempt} (like : a.Like b) {error : Error} (fails : a.failure = some error) :
    ∃ other, b.failure = some other ∧ other.category = error.category := by
  have same := like.2
  rw [fails] at same
  exact Option.map_eq_some_iff.1 same.symm

namespace Run

variable {tree result : Tree} {surroundings : Surroundings} {given : Option String}

theorem setJobName_eq_fill (surroundings : Surroundings) (given : Option String) (tree : Tree) :
    setJobName surroundings given tree = tree.fill jobNamePath (.string (jobNameOf surroundings given)) true := by
  rw [setJobName, Tree.fill]
  cases found : tree.find jobNamePath with
  | none => rfl
  | some node =>
    cases node with
    | null => exact (Tree.assign_of_present_eq (List.cons_ne_nil _ _) found).symm
    | bool | int | double | string | sequence | mapping => rfl

/-- A run directory that is there stays. -/
theorem ensureDefaults_of_find {node : Tree} (found : tree.find directoryPath = some node) :
    ensureDefaults tree = ⟨tree, none⟩ := by
  obtain ⟨root, _, rfl, inRoot, found⟩ := Tree.find_cons_eq_some found
  obtain ⟨settings, _, rfl, inSettings, found⟩ := Tree.find_cons_eq_some found
  obtain ⟨run, value, rfl, inRun, -⟩ := Tree.find_cons_eq_some found
  have same : withDirectory run = run := by rw [withDirectory, inRun]
  rw [ensureDefaults, fillDirectory, childEntries, inRoot]
  dsimp only
  rw [childEntries, inSettings]
  dsimp only
  rw [same, Entries.put_of_lookup inSettings, Entries.put_of_lookup inRoot]

/-- A run directory that is not there is put below the mappings that there are. -/
theorem fillDirectory_like_assign {root : List (String × Tree)} (absent : (Tree.mapping root).find directoryPath = none) :
    (fillDirectory root).Like ((Tree.mapping root).assign directoryPath (.string defaultDirectory) true) := by
  rw [directoryPath, Tree.find_mapping_cons] at absent
  rw [directoryPath, Tree.assign_of_ground rfl (List.cons_ne_nil _ _), Tree.assignEntries, fillDirectory, childEntries]
  cases inRoot : root.lookup settingsKey with
  | none => exact ⟨rfl, rfl⟩
  | some node =>
    cases node with
    | mapping settings =>
      rw [inRoot, Option.bind_some, Tree.find_mapping_cons] at absent
      dsimp only
      rw [Tree.assignEntries, childEntries]
      cases inSettings : settings.lookup "run" with
      | none => exact ⟨rfl, rfl⟩
      | some node =>
        cases node with
        | mapping run =>
          rw [inSettings, Option.bind_some, Tree.find_mapping_cons] at absent
          cases inRun : run.lookup "dir" with
          | none =>
            simp only [Tree.assignEntries, withDirectory, inRun]
            exact ⟨rfl, rfl⟩
          | some node =>
            rw [inRun, Option.bind_some, Tree.find_nil] at absent
            cases absent
        | null | bool | int | double | string | sequence => exact ⟨rfl, rfl⟩
    | null | bool | int | double | string | sequence => exact ⟨rfl, rfl⟩

theorem ensureDefaults_like_fill (tree : Tree) :
    (ensureDefaults tree).Like (tree.fill directoryPath (.string defaultDirectory) false) := by
  cases found : tree.find directoryPath with
  | some node =>
    have taken : Tree.isVacant false (tree.find directoryPath) = false := by
      rw [found]
      cases node <;> rfl
    rw [ensureDefaults_of_find found, Tree.fill_of_taken taken]
    exact ⟨rfl, rfl⟩
  | none =>
    have vacant : Tree.isVacant false (tree.find directoryPath) = true := by rw [found]; rfl
    rw [Tree.fill_of_vacant vacant, found]
    cases tree with
    | mapping root => exact fillDirectory_like_assign found
    | null | bool | int | double | string | sequence => exact ⟨rfl, rfl⟩

/-! ## Both settings -/

/-- Fills in both settings, the run directory first. -/
def directoryThenName (surroundings : Surroundings) (given : Option String) (tree : Tree) : Except Error Tree := do
  let filled ← (ensureDefaults tree).outcome
  (setJobName surroundings given filled).outcome

/-- Fills in both settings, the job name first. -/
def nameThenDirectory (surroundings : Surroundings) (given : Option String) (tree : Tree) : Except Error Tree := do
  let filled ← (setJobName surroundings given tree).outcome
  (ensureDefaults filled).outcome

theorem apart_settings : Tree.Apart directoryPath jobNamePath := by
  decide

theorem setJobName_works_iff (works : (ensureDefaults tree).failure = none) :
    (setJobName surroundings given (ensureDefaults tree).tree).failure = none
      ↔ (setJobName surroundings given tree).failure = none := by
  have like := ensureDefaults_like_fill tree
  rw [setJobName_eq_fill, setJobName_eq_fill, like.1]
  exact Tree.fill_fill_succeeds_iff (like.works.1 works) apart_settings

theorem ensureDefaults_works_iff (works : (setJobName surroundings given tree).failure = none) :
    (ensureDefaults (setJobName surroundings given tree).tree).failure = none ↔ (ensureDefaults tree).failure = none := by
  rw [(ensureDefaults_like_fill _).works, (ensureDefaults_like_fill _).works]
  rw [setJobName_eq_fill] at works ⊢
  exact Tree.fill_fill_succeeds_iff works apart_settings.symm

theorem directoryThenName_eq_ok_iff : directoryThenName surroundings given tree = .ok result ↔
    (ensureDefaults tree).failure = none ∧ (setJobName surroundings given tree).failure = none
      ∧ (setJobName surroundings given (ensureDefaults tree).tree).tree = result := by
  simp only [directoryThenName, Outcome.bind_eq_ok, Attempt.outcome_eq_ok_iff]
  constructor
  · rintro ⟨filled, ⟨works, rfl⟩, works', rfl⟩
    exact ⟨works, (setJobName_works_iff works).1 works', rfl⟩
  · rintro ⟨works, works', rfl⟩
    exact ⟨_, ⟨works, rfl⟩, (setJobName_works_iff works).2 works', rfl⟩

theorem nameThenDirectory_eq_ok_iff : nameThenDirectory surroundings given tree = .ok result ↔
    (ensureDefaults tree).failure = none ∧ (setJobName surroundings given tree).failure = none
      ∧ (ensureDefaults (setJobName surroundings given tree).tree).tree = result := by
  simp only [nameThenDirectory, Outcome.bind_eq_ok, Attempt.outcome_eq_ok_iff]
  constructor
  · rintro ⟨filled, ⟨works', rfl⟩, works, rfl⟩
    exact ⟨(ensureDefaults_works_iff works').1 works, works', rfl⟩
  · rintro ⟨works, works', rfl⟩
    exact ⟨_, ⟨works', rfl⟩, (ensureDefaults_works_iff works').2 works, rfl⟩

theorem agree_settings (works : (ensureDefaults tree).failure = none)
    (works' : (setJobName surroundings given tree).failure = none) :
    (setJobName surroundings given (ensureDefaults tree).tree).tree.Agree
      (ensureDefaults (setJobName surroundings given tree).tree).tree := by
  have like := ensureDefaults_like_fill tree
  rw [(ensureDefaults_like_fill (setJobName surroundings given tree).tree).1, like.1, setJobName_eq_fill, setJobName_eq_fill]
  rw [setJobName_eq_fill] at works'
  exact Tree.agree_fill_fill apart_settings (like.works.1 works) works'

/-- Filling in a setting fails with a conflict and leaves the tree as it was, or it keeps all that stands there, a null root
and a null job name apart, and has nothing to do a second time, whatever name it is then given. Both settings can be filled
in or not, whichever comes first, and then the trees differ in the order of entries only. -/
theorem settings_only_filled (surroundings : Surroundings) (given : Option String) (distinct : tree.HasDistinctKeys) :
    (∀ error, (ensureDefaults tree).failure = some error →
        error.category = .conflict ∧ (ensureDefaults tree).tree = tree)
      ∧ (∀ error, (setJobName surroundings given tree).failure = some error →
        error.category = .conflict ∧ (setJobName surroundings given tree).tree = tree)
      ∧ ((ensureDefaults tree).failure = none →
        tree.Filled (ensureDefaults tree).tree directoryPath (.string defaultDirectory) false
        ∧ ensureDefaults (ensureDefaults tree).tree = ⟨(ensureDefaults tree).tree, none⟩)
      ∧ ((setJobName surroundings given tree).failure = none →
        tree.Filled (setJobName surroundings given tree).tree jobNamePath (.string (jobNameOf surroundings given)) true
        ∧ ∀ surroundings' given', setJobName surroundings' given' (setJobName surroundings given tree).tree
          = ⟨(setJobName surroundings given tree).tree, none⟩)
      ∧ ((∃ result, directoryThenName surroundings given tree = .ok result)
        ↔ ∃ result, nameThenDirectory surroundings given tree = .ok result)
      ∧ ∀ result result', directoryThenName surroundings given tree = .ok result →
        nameThenDirectory surroundings given tree = .ok result' → result.Alike result' := by
  have like := ensureDefaults_like_fill tree
  have below : directoryPath ≠ [] := apart_settings.ne_nil
  have below' : jobNamePath ≠ [] := apart_settings.symm.ne_nil
  refine ⟨fun error fails => ?_, fun error fails => ?_, fun works => ?_, fun works => ?_, ?_, ?_⟩
  · obtain ⟨other, fails, same⟩ := like.fails fails
    rw [like.1, ← same]
    exact Tree.fill_of_failure below fails
  · rw [setJobName_eq_fill] at fails ⊢
    exact Tree.fill_of_failure below' fails
  · have filled := Tree.filled_fill below (like.works.1 works)
    rw [like.1]
    obtain ⟨node, found⟩ := filled.exists_find
    exact ⟨filled, ensureDefaults_of_find found⟩
  · rw [setJobName_eq_fill] at works ⊢
    refine ⟨Tree.filled_fill below' works, fun surroundings' given' => ?_⟩
    rw [setJobName_eq_fill]
    exact Tree.fill_fill below' works rfl _
  · simp only [directoryThenName_eq_ok_iff, nameThenDirectory_eq_ok_iff, exists_and_left, exists_eq']
  · intro result result' first second
    obtain ⟨works, works', rfl⟩ := directoryThenName_eq_ok_iff.1 first
    obtain ⟨-, -, rfl⟩ := nameThenDirectory_eq_ok_iff.1 second
    refine (agree_settings works works').alike ?_
    rw [setJobName_eq_fill, like.1]
    exact Tree.hasDistinctKeys_fill (Tree.hasDistinctKeys_fill distinct trivial) trivial

/-- A configuration whose job has no name yet. -/
def namelessTree : Tree :=
  .mapping [("hydra", .mapping [("job", .mapping [("name", .null), ("num", .int 1)])]), ("seed", .int 7)]

/-- A configuration with a number in the place of the settings of the run. -/
def misshapenTree : Tree :=
  .mapping [("hydra", .mapping [("run", .int 3)])]

/-- The surroundings of a program that was started without arguments of its own. -/
def launched : Surroundings :=
  ⟨[], ⟨2024, 1, 1, 0, 0, 0, 0⟩, ["bin/train.py"]⟩

/-- A null name becomes that of the program, and the run directory is new beside the job, before or after. A number in its
way is a conflict and stays. -/
theorem settings_only_filled_namelessTree :
    (setJobName launched none namelessTree).tree.find jobNamePath = some (.string "train.py")
      ∧ (setJobName launched (some "eval") (setJobName launched none namelessTree).tree).tree.find jobNamePath
        = some (.string "train.py")
      ∧ (∃ result result', directoryThenName launched none namelessTree = .ok result
        ∧ nameThenDirectory launched none namelessTree = .ok result' ∧ result.Alike result')
      ∧ (ensureDefaults misshapenTree).failure = some (.notMapping "hydra.run")
      ∧ (ensureDefaults misshapenTree).tree = misshapenTree := by
  have works : (ensureDefaults namelessTree).failure = none := rfl
  have works' : (setJobName launched none namelessTree).failure = none := rfl
  have fails : (ensureDefaults misshapenTree).failure = some (.notMapping "hydra.run") := rfl
  have name : jobNameOf launched none = "train.py" := by decide +kernel
  obtain ⟨-, -, -, named, orders, alike⟩ := @settings_only_filled namelessTree launched none (by decide)
  obtain ⟨filled, again⟩ := named works'
  have placed := filled.placed
  rw [name] at placed
  have first := directoryThenName_eq_ok_iff.2 ⟨works, works', rfl⟩
  obtain ⟨result, second⟩ := orders.1 ⟨_, first⟩
  obtain ⟨conflicts, -⟩ := @settings_only_filled misshapenTree launched none (by decide)
  exact ⟨placed, (again launched (some "eval")).symm ▸ placed, ⟨_, result, first, second, alike _ _ first second⟩, fails,
    (conflicts _ fails).2⟩

end Run

end LayeredConfig
