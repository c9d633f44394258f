import LayeredConfig.Proofs.Compose.Cycles
import LayeredConfig.Proofs.KeyPath.Rendered
import LayeredConfig.Proofs.Tree.Nested

/-!
# Placing the file of a group

The tree of a group entry is merged with the node at the key path of the group, or added there with the mappings on the way.
Both are one merge at the root, of the tree in a nest of mappings along the path: `group_placed`. Only a node in the way that
is no mapping makes a difference, since a merge replaces it and placing refuses it.
-/

namespace LayeredConfig.Compose

variable {store : File.Store} {opened : List File.Place} {base file : File.Path} {composed child entry after : Tree}
  {target : KeyPath} {optional : Bool}

/-- What placing the tree of a group leaves of what is composed already, and the failure if there is one. -/
def placing (composed child : Tree) (target : KeyPath) : Attempt :=
  match composed.find target with
  | some _ => ⟨composed.modify (fun node => node.merge child) target, none⟩
  | none => composed.assign target child true

theorem place_eq_placing (composed child : Tree) (target : KeyPath) :
    place composed child (some target) = (placing composed child target).outcome := by
  rw [place, placing]
  cases composed.find target <;> rfl

theorem target_ne_nil (parses : Include.parse base entry = .ok ⟨file, some target, optional⟩) : target ≠ [] := by
  rcases parse_cases parses with ⟨_, -, root, -⟩ | ⟨_, _, _, -, grouped, spells, -⟩
  · cases root
  · cases grouped
    obtain ⟨spelling, -, rfl⟩ := KeyPath.parse_eq_ok_iff.1 spells
    exact spelling.path_ne_nil

/-- What placing makes, when it succeeds, is a merge at the root. -/
theorem eq_merge_of_place (below : target ≠ []) (places : place composed child (some target) = .ok after) :
    after = composed.merge (child.under target) := by
  rw [place_eq_placing, placing] at places
  split at places
  · next node found =>
    cases places
    exact (Tree.merge_under_of_find found).symm
  · rw [Attempt.outcome] at places
    split at places
    · next works =>
      cases places
      exact Tree.merge_under_of_assign below works
    · cases places

theorem placing_of_free (root : composed.isMapping = true) (below : target ≠ []) (free : ¬composed.Blocked target) :
    placing composed child target = ⟨composed.merge (child.under target), none⟩ := by
  rw [placing]
  split
  · next node found => rw [Tree.merge_under_of_find found]
  · next absent =>
    obtain ⟨entries, rfl⟩ := Tree.exists_entries root
    have works : ((Tree.mapping entries).assign target child true).failure = none :=
      (Tree.assign_succeeds_iff below).2 ⟨free, congrArg Option.isSome absent⟩
    rw [← Tree.merge_under_of_assign below works, ← works]

theorem placing_of_blocked (root : composed.isMapping = true) (below : target ≠ []) (blocked : composed.Blocked target) :
    ∃ error, placing composed child target = ⟨composed, some error⟩ ∧ error.category = .conflict
      ∧ composed.Stops true target error := by
  obtain ⟨entries, rfl⟩ := Tree.exists_entries root
  rw [placing, blocked.find_eq_none]
  dsimp only
  cases failure : ((Tree.mapping entries).assign target child true).failure with
  | none => exact absurd blocked ((Tree.assign_succeeds_iff below).1 failure).1
  | some error =>
    have stops : (Tree.mapping entries).Stops true target error := Tree.stops_of_assign rfl below failure
    have filled : Tree.mapping entries ≠ .null := by
      intro null
      cases null
    refine ⟨error, ?_, ?_, stops⟩
    · exact congrArg₂ Attempt.mk ((Tree.spared_of_assign failure).eq filled) failure
    · rcases stops.cases with ⟨conflict, -⟩ | ⟨-, strict, -⟩
      · exact conflict
      · cases strict

theorem loadIncludes_of_group (parses : Include.parse base entry = .ok ⟨file, some target, optional⟩)
    (held : store.holds file = true) (loads : (load store opened file.names).outcome = .ok child) (rest : List Tree) :
    (loadIncludes store opened base composed (entry :: rest)).outcome
      = (placing composed child target).outcome >>= fun composed => (loadIncludes store opened base composed rest).outcome := by
  have notSelf : isSelf entry = false := by
    rcases parse_cases parses with ⟨_, -, root, -⟩ | ⟨_, _, _, rfl, -⟩
    · cases root
    · rfl
  simp only [outcome_loadIncludes, List.foldlM_cons]
  rw [addEntry_of_held notSelf parses held, loads, ← place_eq_placing]
  rfl

/-- Placing the tree of a group below a mapping is merging, at the root, the nest of mappings along the path of the group that
ends in this tree, unless a node on the way is no mapping; then it is a conflict at that node and changes nothing. Loading goes
on over what a group entry has placed, or ends with its failure. -/
theorem group_placed (composed child : Tree) (target : KeyPath) (root : composed.isMapping = true) (below : target ≠ []) :
    (¬composed.Blocked target → placing composed child target = ⟨composed.merge (child.under target), none⟩)
    ∧ (composed.Blocked target → ∃ error, placing composed child target = ⟨composed, some error⟩
        ∧ error.category = .conflict ∧ composed.Stops true target error)
    ∧ ∀ (store : File.Store) (opened : List File.Place) (base file : File.Path) (entry : Tree) (optional : Bool)
        (rest : List Tree), Include.parse base entry = .ok ⟨file, some target, optional⟩ → store.holds file = true →
        (load store opened file.names).outcome = .ok child →
        (loadIncludes store opened base composed (entry :: rest)).outcome = (placing composed child target).outcome
          >>= fun composed => (loadIncludes store opened base composed rest).outcome :=
  ⟨placing_of_free root below, placing_of_blocked root below,
    fun _ _ _ _ _ _ rest parses held loads => loadIncludes_of_group parses held loads rest⟩

/-- A file in a group. -/
def groupStore : File.Store :=
  ⟨[(["trainer"], .directory), (["trainer", "sgd.yaml"], .file (File.contentOf "epochs: 5\nrate: 1\n".toList))], []⟩

theorem group_placed_trainerTree :
    placing Tree.trainerTree (.int 1) ["trainer", "rate"]
        = ⟨.mapping [("trainer", .mapping [("epochs", .int 3), ("rate", .int 1)]), ("seed", .int 1)], none⟩
      ∧ placing Tree.trainerTree .null ["trainer", "epochs"]
        = ⟨.mapping [("trainer", .mapping [("epochs", .null)]), ("seed", .int 1)], none⟩
      ∧ (∃ error, placing Tree.trainerTree (.int 1) ["seed", "start"] = ⟨Tree.trainerTree, some error⟩
        ∧ error.category = .conflict ∧ Tree.trainerTree.Stops true ["seed", "start"] error)
      ∧ (loadIncludes groupStore [] (.ofNames []) Tree.trainerTree [.mapping [("trainer", .string "sgd")]]).outcome
        = .ok (.mapping [("trainer", .mapping [("epochs", .int 5), ("rate", .int 1)]), ("seed", .int 1)]) := by
  have there : Tree.trainerTree.find ["trainer"] = some (.mapping [("epochs", .int 3)]) := rfl
  have free : ¬Tree.trainerTree.Blocked ["trainer", "rate"] := (Tree.free_of_absent there rfl).2
  have known : ¬Tree.trainerTree.Blocked ["trainer", "epochs"] := by
    intro blocked
    cases blocked.find_eq_none
  have blocked : Tree.trainerTree.Blocked ["seed", "start"] := ⟨["seed"], .int 1, by decide, by decide, rfl, rfl⟩
  have loads : (load groupStore [] ["trainer", "sgd.yaml"]).outcome = .ok (.mapping [("epochs", .int 5), ("rate", .int 1)]) :=
    outcome_load_of_within (Nat.lt_succ_self 2) (by decide +kernel)
  obtain ⟨adds, -, -⟩ := group_placed Tree.trainerTree (.int 1) ["trainer", "rate"] rfl (by decide)
  obtain ⟨lays, -, -⟩ := group_placed Tree.trainerTree .null ["trainer", "epochs"] rfl (by decide)
  obtain ⟨-, refuses, -⟩ := group_placed Tree.trainerTree (.int 1) ["seed", "start"] rfl (by decide)
  obtain ⟨-, -, goesOn⟩ := group_placed Tree.trainerTree (.mapping [("epochs", .int 5), ("rate", .int 1)]) ["trainer"] rfl
    (by decide)
  refine ⟨adds free, lays known, refuses blocked, ?_⟩
  rw [goesOn groupStore [] (.ofNames []) (.ofNames ["trainer", "sgd.yaml"]) (.mapping [("trainer", .string "sgd")]) false []
    (by decide +kernel) (by decide +kernel) loads]
  simp only [outcome_loadIncludes, List.foldlM_nil]
  rfl

end LayeredConfig.Compose
