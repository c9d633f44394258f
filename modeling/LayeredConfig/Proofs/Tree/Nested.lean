import LayeredConfig.Proofs.Override.Stopped

/-!
# A tree in a nest of mappings

`Tree.under` puts a tree inside mappings of one key each along a path. Laying such a nest over a tree is laying what is inside
over the node at the path if one stands there (`merge_under_of_find`), and adding it there if none does and the way is free
(`merge_under_of_assign`). Neither the order of the entries nor the kind of what is inside matters.
-/

namespace LayeredConfig.Tree

variable {value tree node : Tree} {key : String} {path : KeyPath} {entries : List (String × Tree)}

/-- The nest of mappings of one key each along a path, with a tree inside. -/
def under (tree : Tree) : KeyPath → Tree
  | [] => tree
  | key :: rest => .mapping [(key, tree.under rest)]

/-- Laying one entry over a mapping puts its value where the key has its place, laid over what stands there. -/
theorem mapping_merge_single (entries : List (String × Tree)) (key : String) (value : Tree) :
    (Tree.mapping entries).merge (.mapping [(key, value)])
      = .mapping (Entries.put key ((entries.lookup key).elim value fun lower => lower.merge value) entries) :=
  congrArg mapping (mergeEntries_cons entries [] key value)

/-- Over a node that stands at its path, a nest lays what is inside. -/
theorem merge_under_of_find (found : tree.find path = some node) :
    tree.merge (value.under path) = tree.modify (fun node => node.merge value) path := by
  induction path generalizing tree with
  | nil => cases tree <;> rfl
  | cons key rest ih =>
    obtain ⟨entries, child, rfl, there, inside⟩ := find_cons_eq_some found
    rw [under, mapping_merge_single, there, Option.elim_some, ih inside, modify, there]

/-- Where there is room for it, a nest adds what is inside, and the mappings on the way. -/
theorem merge_under_of_assignEntries (works : (assignEntries value true path entries).2 = none) :
    (Tree.mapping entries).merge (value.under path) = .mapping (assignEntries value true path entries).1 := by
  fun_induction assignEntries value true path entries with
  | case1 | case2 | case3 | case6 | case8 => cases works
  | case4 key entries strict fresh =>
    cases there : entries.lookup key with
    | none => rw [under, under, mapping_merge_single, there, Option.elim_none]
    | some node => exact absurd rfl (fresh node there)
  | case5 key next rest entries absent _ below failure assigned ih =>
    rw [assigned] at ih
    rw [under, mapping_merge_single, absent, Option.elim_none, ← ih works]
    rfl
  | case7 key next rest entries children there below failure assigned ih =>
    rw [assigned] at ih
    rw [under, mapping_merge_single, there, Option.elim_some, ih works]

/-- A null root counts as an empty mapping below a nest. -/
theorem ground_merge_under (below : path ≠ []) : tree.ground.merge (value.under path) = tree.merge (value.under path) := by
  obtain ⟨key, rest, rfl⟩ := List.exists_cons_of_ne_nil below
  cases tree <;> rfl

theorem merge_under_of_assign (below : path ≠ []) (works : (tree.assign path value true).failure = none) :
    (tree.assign path value true).tree = tree.merge (value.under path) := by
  obtain ⟨entries, base⟩ := exists_ground below works
  rw [assign_of_ground base below] at works ⊢
  rw [← ground_merge_under below, base, merge_under_of_assignEntries works]

end LayeredConfig.Tree
