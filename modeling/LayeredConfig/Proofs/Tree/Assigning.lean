import LayeredConfig.Proofs.Tree.MadeOf

/-!
# What an assignment does

An assignment that succeeds puts its value where it says (`find_of_assign`) and leaves alone what stands elsewhere
(`find_assign_of_apart`). Assigning what stands there already changes nothing (`assign_of_find`).
-/

namespace LayeredConfig.Tree

variable {value tree : Tree} {add : Bool} {path other : KeyPath} {entries : List (String × Tree)}

theorem find_mapping_cons {key : String} {rest : KeyPath} :
    (Tree.mapping entries).find (key :: rest) = (entries.lookup key).bind fun child => child.find rest :=
  find_cons _ _ _

/-- What stands at a path stands in the mappings that lead there. -/
theorem find_cons_eq_some {key : String} {rest : KeyPath} {node : Tree} (found : tree.find (key :: rest) = some node) :
    ∃ entries child, tree = .mapping entries ∧ entries.lookup key = some child ∧ child.find rest = some node := by
  rw [find_cons] at found
  obtain ⟨child, below, inside⟩ := Option.bind_eq_some_iff.1 found
  cases tree with
  | mapping entries => exact ⟨entries, child, rfl, below, inside⟩
  | null | bool | int | double | string | sequence => cases below

theorem assignEntries_of_find (below : path ≠ []) (found : (Tree.mapping entries).find path = some value) :
    assignEntries value false path entries = (entries, none) := by
  induction path generalizing entries with
  | nil => exact absurd rfl below
  | cons key rest ih =>
    rw [find_mapping_cons] at found
    obtain ⟨child, there, inside⟩ := Option.bind_eq_some_iff.1 found
    cases rest with
    | nil =>
      rw [find_nil] at inside
      cases inside
      simp only [assignEntries, there, Entries.put_of_lookup there]
    | cons next rest =>
      obtain ⟨children, -, rfl, -⟩ := find_cons_eq_some inside
      have inner := ih (List.cons_ne_nil _ _) inside
      simp only [assignEntries, there, inner, Entries.put_of_lookup there]

theorem find_of_assignEntries (works : (assignEntries value add path entries).2 = none) :
    (Tree.mapping (assignEntries value add path entries).1).find path = some value := by
  fun_induction assignEntries value add path entries with
  | case1 => cases works
  | case2 => cases works
  | case3 => cases works
  | case4 key entries =>
    rw [find_mapping_cons, Entries.lookup_put_self]
    exact find_nil value
  | case5 key next rest entries _ _ below failure assigned ih =>
    rw [assigned] at ih
    rw [find_mapping_cons, Entries.lookup_put_self]
    exact ih works
  | case6 => cases works
  | case7 key next rest entries children found below failure assigned ih =>
    rw [assigned] at ih
    rw [find_mapping_cons, Entries.lookup_put_self]
    exact ih works
  | case8 => cases works

theorem find_put {key : String} {child : Tree} (below : other ≠ [])
    (inside : ∀ rest, other = key :: rest → child.find rest = (Tree.mapping entries).find (key :: rest)) :
    (Tree.mapping (Entries.put key child entries)).find other = (Tree.mapping entries).find other := by
  cases other with
  | nil => exact absurd rfl below
  | cons name rest =>
    by_cases same : name = key
    · subst same
      rw [find_mapping_cons, Entries.lookup_put_self]
      exact inside rest rfl
    · rw [find_mapping_cons, find_mapping_cons, Entries.lookup_put_of_ne same]

theorem find_assignEntries_of_apart (front : ¬path <+: other) (back : ¬other <+: path) :
    (Tree.mapping (assignEntries value add path entries).1).find other = (Tree.mapping entries).find other := by
  have below : other ≠ [] := fun none => back (none ▸ List.nil_prefix)
  fun_induction assignEntries value add path entries generalizing other with
  | case1 | case2 | case3 | case6 | case8 => rfl
  | case4 key entries =>
    refine find_put below fun rest same => ?_
    subst same
    exact absurd (List.cons_prefix_cons.2 ⟨rfl, List.nil_prefix⟩) front
  | case5 key next rest entries absent _ children failure assigned ih =>
    refine find_put below fun others same => ?_
    subst same
    rw [List.cons_prefix_cons, and_iff_right rfl] at front back
    have deeper : others ≠ [] := fun none => back (none ▸ List.nil_prefix)
    have inner := ih front back deeper
    rw [assigned] at inner
    obtain ⟨name, others, rfl⟩ := List.exists_cons_of_ne_nil deeper
    rw [inner, find_mapping_cons, find_mapping_cons, absent]
    rfl
  | case7 key next rest entries olds found children failure assigned ih =>
    refine find_put below fun others same => ?_
    subst same
    rw [List.cons_prefix_cons, and_iff_right rfl] at front back
    have deeper : others ≠ [] := fun none => back (none ▸ List.nil_prefix)
    have inner := ih front back deeper
    rw [assigned] at inner
    rw [inner, find_mapping_cons, found]
    rfl

/-! ## Whole trees -/

/-- An assignment that succeeds has put its value at its path. -/
theorem find_of_assign (works : (tree.assign path value add).failure = none) :
    (tree.assign path value add).tree.find path = some value := by
  unfold assign at works ⊢
  split at works
  · cases works
  · next filled =>
    rw [if_neg filled]
    split at works
    · exact find_of_assignEntries works
    · exact find_of_assignEntries works
    · cases works

/-- An assignment leaves alone what stands neither above nor below its path. -/
theorem find_assign_of_apart (front : ¬path <+: other) (back : ¬other <+: path) :
    (tree.assign path value add).tree.find other = tree.find other := by
  have below : other ≠ [] := fun none => back (none ▸ List.nil_prefix)
  unfold assign
  split
  · rfl
  · split
    · refine (find_assignEntries_of_apart front back).trans ?_
      obtain ⟨key, rest, rfl⟩ := List.exists_cons_of_ne_nil below
      rfl
    · exact find_assignEntries_of_apart front back
    · rfl

/-- Assigning what stands at a path already changes nothing. -/
theorem assign_of_find (below : path ≠ []) (found : tree.find path = some value) :
    tree.assign path value false = ⟨tree, none⟩ := by
  obtain ⟨key, rest, rfl⟩ := List.exists_cons_of_ne_nil below
  obtain ⟨entries, -, rfl, -⟩ := find_cons_eq_some found
  have same := assignEntries_of_find below found
  show (⟨.mapping (assignEntries value false (key :: rest) entries).1,
    (assignEntries value false (key :: rest) entries).2⟩ : Attempt) = _
  rw [same]

theorem find_append (tree : Tree) (path rest : KeyPath) :
    tree.find (path ++ rest) = (tree.find path).bind fun node => node.find rest := by
  induction path generalizing tree with
  | nil => rw [find_nil]; rfl
  | cons key path ih =>
    rw [List.cons_append, find_cons, find_cons]
    cases tree.child? key with
    | none => rfl
    | some child => exact ih child

theorem find_modify {old : Tree} (f : Tree → Tree) (found : tree.find path = some old) :
    (tree.modify f path).find path = some (f old) := by
  induction path generalizing tree with
  | nil =>
    rw [find_nil] at found
    cases found
    exact find_nil _
  | cons key rest ih =>
    obtain ⟨entries, child, rfl, there, inside⟩ := find_cons_eq_some found
    rw [Tree.modify, there]
    dsimp only
    rw [find_mapping_cons, Entries.lookup_put_self]
    exact ih inside

end LayeredConfig.Tree
