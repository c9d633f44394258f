import LayeredConfig.Proofs.Tree.Assigning

/-!
# Assigning as a lens

What an assignment does is said by what `Tree.find` gives before and after it: `assign_lawful`. It succeeds where the tree
has room for it, it stops (`Stops`) where the tree has not, naming the component, and it changes nothing but the node at
its path and the keys of new mappings on the way. The recursion creates mappings before it knows what is below, but below
a mapping that is new nothing can stop it (`assignEntries_empty`), so that every cause of failure stands in the old tree.
-/

namespace LayeredConfig

namespace Entries

variable {κ α : Type} [DecidableEq κ]

/-- Of two values that are put under one key the second one stays. -/
theorem put_put (key : κ) (old value : α) (entries : List (κ × α)) :
    put key value (put key old entries) = put key value entries := by
  induction entries with
  | nil => simp [put]
  | cons entry rest ih =>
    obtain ⟨k, v⟩ := entry
    by_cases same : k = key
    · simp [put, same]
    · simp [put, same, ih]

end Entries

namespace Tree

variable {value tree node : Tree} {add : Bool} {key : String} {path front rest other : KeyPath}
  {entries children : List (String × Tree)} {error : Error}

/-- The tree that an assignment starts from: a null root counts as an empty mapping. -/
def ground : Tree → Tree
  | .null => .mapping []
  | tree => tree

/-- The keys of the mapping at a path; there are none where no mapping stands. -/
def keysAt (tree : Tree) (path : KeyPath) : List String :=
  (tree.find path).elim [] keys

/-- Where an assignment finds no room, and why: behind the mapping at `front`, at the component that the error names. -/
inductive Stops (tree : Tree) (add : Bool) : KeyPath → Error → Prop
  | keyAbsent {front : KeyPath} {key : String} {entries : List (String × Tree)}
      (there : tree.find front = some (.mapping entries)) (absent : entries.lookup key = none) (strict : add = false) :
      Stops tree add (front ++ [key]) (.keyAbsent key)
  | keyPresent {front : KeyPath} {key : String} {entries : List (String × Tree)} {node : Tree}
      (there : tree.find front = some (.mapping entries)) (present : entries.lookup key = some node)
      (fresh : add = true) : Stops tree add (front ++ [key]) (.keyPresent key)
  | componentAbsent {front rest : KeyPath} {key : String} {entries : List (String × Tree)}
      (there : tree.find front = some (.mapping entries)) (absent : entries.lookup key = none) (strict : add = false)
      (inner : rest ≠ []) : Stops tree add (front ++ key :: rest) (.componentAbsent key)
  | componentNotMapping {front rest : KeyPath} {key : String} {entries : List (String × Tree)} {node : Tree}
      (there : tree.find front = some (.mapping entries)) (present : entries.lookup key = some node)
      (noMapping : node.isMapping = false) (inner : rest ≠ []) :
      Stops tree add (front ++ key :: rest) (.componentNotMapping key node.kind)

/-! ## Following a path in two parts -/

theorem find_ground (below : path ≠ []) : tree.ground.find path = tree.find path := by
  obtain ⟨key, rest, rfl⟩ := List.exists_cons_of_ne_nil below
  cases tree <;> rfl

theorem keysAt_empty (path : KeyPath) : (Tree.mapping []).keysAt path = [] := by
  cases path <;> rfl

theorem keysAt_cons (found : entries.lookup key = some node) (path : KeyPath) :
    (Tree.mapping entries).keysAt (key :: path) = node.keysAt path := by
  rw [keysAt, find_mapping_cons, found]
  rfl

theorem keysAt_cons_of_absent (absent : entries.lookup key = none) (path : KeyPath) :
    (Tree.mapping entries).keysAt (key :: path) = [] := by
  rw [keysAt, find_mapping_cons, absent]
  rfl

/-- What stands in the way behind a node is what stands in the way of the rest of the path. -/
theorem blocked_append_iff (found : tree.find front = some node) :
    tree.Blocked (front ++ rest) ↔ node.Blocked rest := by
  induction front generalizing tree with
  | nil =>
    rw [find_nil] at found
    cases found
    exact Iff.rfl
  | cons key front ih =>
    obtain ⟨entries, child, rfl, below, inside⟩ := find_cons_eq_some found
    rw [List.cons_append, blocked_cons_iff, child?_mapping, below]
    simp only [isMapping, Bool.true_eq_false, Option.some.injEq, exists_eq_left', false_or]
    exact ih inside

theorem not_blocked_of_absent (absent : entries.lookup key = none) : ¬(Tree.mapping entries).Blocked (key :: rest) := by
  rw [blocked_cons_iff, child?_mapping, absent]
  simp [isMapping]

theorem blocked_mapping_cons (present : entries.lookup key = some node) :
    (Tree.mapping entries).Blocked (key :: rest) ↔ node.Blocked rest := by
  rw [blocked_cons_iff, child?_mapping, present]
  simp [isMapping]

theorem blocked_of_not_mapping (noMapping : node.isMapping = false) (inner : rest ≠ []) : node.Blocked rest := by
  obtain ⟨key, rest, rfl⟩ := List.exists_cons_of_ne_nil inner
  exact blocked_cons_iff.2 (.inl noMapping)

/-! ## Where an assignment stops -/

theorem Stops.cons (found : entries.lookup key = some node) (stops : node.Stops add path error) :
    (Tree.mapping entries).Stops add (key :: path) error := by
  have deeper {front : KeyPath} {inner : Tree} (there : node.find front = some inner) :
      (Tree.mapping entries).find (key :: front) = some inner := by
    rw [find_mapping_cons, found]
    exact there
  cases stops with
  | keyAbsent there absent strict => exact .keyAbsent (deeper there) absent strict
  | keyPresent there present fresh => exact .keyPresent (deeper there) present fresh
  | componentAbsent there absent strict inner => exact .componentAbsent (deeper there) absent strict inner
  | componentNotMapping there present noMapping inner =>
    exact .componentNotMapping (deeper there) present noMapping inner

/-- Below a mapping that is new nothing stops an assignment. -/
theorem assignEntries_empty (value : Tree) (below : path ≠ []) : (assignEntries value true path []).2 = none := by
  induction path with
  | nil => exact absurd rfl below
  | cons key rest ih =>
    cases rest with
    | nil => rfl
    | cons next rest => exact ih (List.cons_ne_nil _ _)

theorem stops_of_assignEntries (below : path ≠ []) (fails : (assignEntries value add path entries).2 = some error) :
    (Tree.mapping entries).Stops add path error := by
  fun_induction assignEntries value add path entries with
  | case1 => exact absurd rfl below
  | case2 key entries strict absent =>
    cases fails
    exact .keyAbsent (find_nil _) absent strict
  | case3 key entries node fresh present =>
    cases fails
    exact .keyPresent (find_nil _) present fresh
  | case4 => cases fails
  | case5 key next rest entries absent fresh below failure assigned =>
    cases fresh
    have works := assignEntries_empty value (List.cons_ne_nil next rest)
    rw [assigned] at works
    cases works.symm.trans fails
  | case6 key next rest entries absent strict =>
    cases fails
    exact .componentAbsent (find_nil _) absent (Bool.not_eq_true _ ▸ strict) (List.cons_ne_nil _ _)
  | case7 key next rest entries children found below failure assigned ih =>
    rw [assigned] at ih
    exact (ih (List.cons_ne_nil _ _) fails).cons found
  | case8 key next rest entries node noMapping present =>
    cases fails
    refine .componentNotMapping (find_nil _) present ?_ (List.cons_ne_nil _ _)
    cases node with
    | mapping children => exact absurd rfl (noMapping children)
    | null | bool | int | double | string | sequence => rfl

theorem room_of_assignEntries (below : path ≠ []) (works : (assignEntries value add path entries).2 = none) :
    ¬(Tree.mapping entries).Blocked path ∧ ((Tree.mapping entries).find path).isSome = !add := by
  fun_induction assignEntries value add path entries with
  | case1 => exact absurd rfl below
  | case2 | case3 | case6 | case8 => cases works
  | case4 key entries absent present =>
    rw [find_mapping_cons]
    cases there : entries.lookup key with
    | none =>
      refine ⟨not_blocked_of_absent there, ?_⟩
      cases add with
      | true => rfl
      | false => exact absurd rfl (absent there)
    | some node =>
      refine ⟨fun blocked => not_blocked_nil node ((blocked_mapping_cons there).1 blocked), ?_⟩
      rw [Option.bind_some, find_nil]
      cases add with
      | true => exact absurd rfl (present node there)
      | false => rfl
  | case5 key next rest entries absent fresh =>
    rw [find_mapping_cons, absent, fresh]
    exact ⟨not_blocked_of_absent absent, rfl⟩
  | case7 key next rest entries children found below failure assigned ih =>
    rw [assigned] at ih
    rw [blocked_mapping_cons found, find_mapping_cons, found]
    exact ih (List.cons_ne_nil _ _) works

/-- Nothing stands behind a key that is absent, and nothing is in the way there. -/
theorem free_of_absent (there : tree.find front = some (.mapping entries)) (absent : entries.lookup key = none) :
    tree.find (front ++ key :: rest) = none ∧ ¬tree.Blocked (front ++ key :: rest) := by
  rw [find_append, there, Option.bind_some, find_mapping_cons, absent, blocked_append_iff there]
  exact ⟨rfl, not_blocked_of_absent absent⟩

/-- A node that is no mapping is in the way, or a node stands where one is to be added. -/
def Clashes (tree : Tree) (add : Bool) (path : KeyPath) : Prop :=
  tree.Blocked path ∨ add = true ∧ ∃ node, tree.find path = some node

/-- What an assignment that stops has met, and the class of its error. -/
theorem Stops.cases (stops : tree.Stops add path error) :
    error.category = .conflict ∧ tree.Clashes add path
      ∨ error.category = .missingKey ∧ add = false ∧ tree.find path = none ∧ ¬tree.Blocked path := by
  cases stops with
  | keyAbsent there absent strict => exact .inr ⟨rfl, strict, free_of_absent there absent⟩
  | @keyPresent front key entries node there present fresh =>
    refine .inl ⟨rfl, .inr ⟨fresh, node, ?_⟩⟩
    rw [find_append, there, Option.bind_some, find_mapping_cons, present]
    exact find_nil node
  | componentAbsent there absent strict => exact .inr ⟨rfl, strict, free_of_absent there absent⟩
  | componentNotMapping there present noMapping inner =>
    refine .inl ⟨rfl, .inl ?_⟩
    rw [blocked_append_iff there, blocked_mapping_cons present]
    exact blocked_of_not_mapping noMapping inner

/-! ## What an assignment leaves on the way -/

/-- Along a path stand mappings, each with the keys that it had in their order, and with the next component as the last
one if that is new. -/
def Lengthened (before after : Tree) (path : KeyPath) : Prop :=
  ∀ front key rest, path = front ++ key :: rest → ∃ entries, after.find front = some (.mapping entries)
    ∧ entries.map Prod.fst = if key ∈ before.keysAt front then before.keysAt front else before.keysAt front ++ [key]

theorem lengthened_nil (before after : Tree) : Lengthened before after [] := by
  intro front key rest way
  exact absurd way.symm (List.append_ne_nil_of_right_ne_nil _ (List.cons_ne_nil _ _))

theorem Lengthened.put {old new : Tree} (inner : old.Lengthened new path)
    (same : path ≠ [] → ∀ front, (Tree.mapping entries).keysAt (key :: front) = old.keysAt front) :
    (Tree.mapping entries).Lengthened (.mapping (Entries.put key new entries)) (key :: path) := by
  intro front next rest way
  cases front with
  | nil =>
    obtain ⟨rfl, rfl⟩ := List.cons.inj way
    exact ⟨_, find_nil _, Entries.keys_put key new entries⟩
  | cons name front =>
    obtain ⟨rfl, further⟩ := List.cons.inj way
    have deeper : path ≠ [] := further ▸ List.append_ne_nil_of_right_ne_nil _ (List.cons_ne_nil _ _)
    rw [find_mapping_cons, Entries.lookup_put_self, same deeper]
    exact inner front next rest further

theorem lengthened_assignEntries (works : (assignEntries value add path entries).2 = none) :
    (Tree.mapping entries).Lengthened (.mapping (assignEntries value add path entries).1) path := by
  fun_induction assignEntries value add path entries with
  | case1 | case2 | case3 | case6 | case8 => cases works
  | case4 key entries => exact (lengthened_nil value value).put fun deeper => absurd rfl deeper
  | case5 key next rest entries absent fresh below failure assigned ih =>
    rw [assigned] at ih
    refine (ih works).put fun _ front => ?_
    rw [keysAt_cons_of_absent absent, keysAt_empty]
  | case7 key next rest entries children there below failure assigned ih =>
    rw [assigned] at ih
    exact (ih works).put fun _ => keysAt_cons there

/-- Assigning at a path a second time is assigning there once. -/
theorem assignEntries_assignEntries {old : Tree} (works : (assignEntries old add path entries).2 = none) :
    assignEntries value false path (assignEntries old add path entries).1 = assignEntries value add path entries := by
  fun_induction assignEntries old add path entries with
  | case1 | case2 | case3 | case6 | case8 => cases works
  | case4 key entries absent present =>
    simp only [assignEntries, Entries.lookup_put_self, Entries.put_put]
  | case5 key next rest entries absent fresh below failure assigned ih =>
    rw [assigned] at ih
    cases fresh
    simp only [assignEntries, Entries.lookup_put_self, Entries.put_put, absent, if_true, ih works]
  | case7 key next rest entries children there below failure assigned ih =>
    rw [assigned] at ih
    simp only [assignEntries, Entries.lookup_put_self, Entries.put_put, there, ih works]

/-! ## Whole trees -/

theorem assign_of_ground (root : tree.ground = .mapping entries) (below : path ≠ []) :
    tree.assign path value add
      = ⟨.mapping (assignEntries value add path entries).1, (assignEntries value add path entries).2⟩ := by
  have filled : ¬path.isEmpty = true := fun empty => below (List.isEmpty_iff.1 empty)
  unfold assign
  rw [if_neg filled]
  cases tree with
  | null | mapping =>
    cases root
    rfl
  | bool | int | double | string | sequence => cases root

theorem assign_of_not_mapping (root : tree.ground.isMapping = false) (below : path ≠ []) :
    tree.assign path value add = ⟨tree, some (.rootNotMapping tree.kind)⟩ := by
  have filled : ¬path.isEmpty = true := fun empty => below (List.isEmpty_iff.1 empty)
  unfold assign
  rw [if_neg filled]
  cases tree with
  | null | mapping => cases root
  | bool | int | double | string | sequence => rfl

/-- An assignment that fails below a root with room for entries has stopped somewhere. -/
theorem stops_of_assign (root : tree.ground.isMapping = true) (below : path ≠ [])
    (fails : (tree.assign path value add).failure = some error) : tree.ground.Stops add path error := by
  obtain ⟨entries, base⟩ := exists_entries root
  rw [assign_of_ground base below] at fails
  rw [base]
  exact stops_of_assignEntries below fails

/-- An assignment succeeds if nothing stands in its way, and something stands at its path just when nothing is to be
added. -/
theorem assign_succeeds_iff (below : path ≠ []) :
    (tree.assign path value add).failure = none
      ↔ ¬tree.ground.Blocked path ∧ (tree.ground.find path).isSome = !add := by
  cases root : tree.ground.isMapping with
  | false =>
    rw [assign_of_not_mapping root below]
    exact ⟨nofun, fun room => absurd (blocked_of_not_mapping root below) room.1⟩
  | true =>
    obtain ⟨entries, base⟩ := exists_entries root
    constructor
    · intro works
      rw [assign_of_ground base below] at works
      rw [base]
      exact room_of_assignEntries below works
    · intro room
      cases failure : (tree.assign path value add).failure with
      | none => rfl
      | some error =>
        rcases (stops_of_assign root below failure).cases with
          ⟨-, blocked | ⟨fresh, node, found⟩⟩ | ⟨-, strict, absent, -⟩
        · exact absurd blocked room.1
        · rw [found, fresh] at room
          cases room.2
        · rw [absent, strict] at room
          cases room.2

/-- A node that is there can be replaced. -/
theorem assign_of_present (below : path ≠ []) (found : tree.find path = some node) :
    (tree.assign path value false).failure = none := by
  rw [← find_ground below] at found
  refine (assign_succeeds_iff below).2 ⟨fun blocked => ?_, by rw [found]; rfl⟩
  cases blocked.find_eq_none.symm.trans found

/-- An assignment fails only because its path is none, leads nowhere, or goes through a node that is no mapping. -/
theorem category_of_assign (fails : (tree.assign path value add).failure = some error) :
    error.category = .parse ∨ error.category = .missingKey ∨ error.category = .conflict := by
  by_cases below : path = []
  · subst below
    cases fails
    exact .inl rfl
  · cases root : tree.ground.isMapping with
    | false =>
      rw [assign_of_not_mapping root below] at fails
      cases fails
      exact .inr (.inr rfl)
    | true =>
      rcases (stops_of_assign root below fails).cases with ⟨conflict, -⟩ | ⟨missing, -⟩
      · exact .inr (.inr conflict)
      · exact .inr (.inl missing)

/-- An assignment that succeeds starts from a mapping. -/
theorem exists_ground (below : path ≠ []) (works : (tree.assign path value add).failure = none) :
    ∃ entries, tree.ground = .mapping entries := by
  cases root : tree.ground.isMapping with
  | true => exact exists_entries root
  | false => exact absurd (blocked_of_not_mapping root below) ((assign_succeeds_iff below).1 works).1

/-- After an assignment that succeeds mappings lead to its path, with their old keys in the old order. -/
theorem lengthened_assign (below : path ≠ []) (works : (tree.assign path value add).failure = none) :
    tree.ground.Lengthened (tree.assign path value add).tree path := by
  obtain ⟨entries, base⟩ := exists_ground below works
  rw [assign_of_ground base below] at works ⊢
  rw [base]
  exact lengthened_assignEntries works

/-- Assigning is a lens. It succeeds where the tree has room for it, without leave to add where a node stands, with leave
where none stands and no node that is no mapping is in the way; then its value stands at its path, mappings lead there
that keep their keys in order, and what stands elsewhere stays. Otherwise the error is of the class of conflicts or that of
missing keys, as the tree decides. Assigning what stands there changes nothing, and of two values the second one stays. -/
theorem assign_lawful (tree : Tree) (path : KeyPath) (value : Tree) (add : Bool) (root : tree.ground.isMapping = true)
    (below : path ≠ []) :
    (add = false → ((tree.assign path value add).failure = none ↔ ∃ node, tree.find path = some node))
    ∧ (add = true → ((tree.assign path value add).failure = none
        ↔ tree.find path = none ∧ ¬tree.ground.Blocked path))
    ∧ ((tree.assign path value add).failure = none →
        (tree.assign path value add).tree.find path = some value
        ∧ tree.ground.Lengthened (tree.assign path value add).tree path
        ∧ (∀ other, ¬path <+: other → ¬other <+: path →
          (tree.assign path value add).tree.find other = tree.find other)
        ∧ ∀ again, (tree.assign path value add).tree.assign path again false = tree.assign path again add)
    ∧ (∀ error, (tree.assign path value add).failure = some error → tree.ground.Stops add path error
        ∧ (error.category = .conflict ∧ tree.ground.Clashes add path
          ∨ error.category = .missingKey ∧ ¬tree.ground.Clashes add path))
    ∧ (tree.find path = some value → tree.assign path value false = ⟨tree, none⟩) := by
  have room := @assign_succeeds_iff value tree add path below
  rw [find_ground below] at room
  refine ⟨fun strict => ?_, fun fresh => ?_,
    fun works => ⟨find_of_assign works, lengthened_assign below works, fun _ => find_assign_of_apart, ?_⟩,
    fun error fails => ?_, assign_of_find below⟩
  · rw [room, strict, Bool.not_false, Option.isSome_iff_exists]
    refine ⟨And.right, fun stands => ⟨fun blocked => ?_, stands⟩⟩
    obtain ⟨node, found⟩ := stands
    rw [← find_ground below, blocked.find_eq_none] at found
    cases found
  · rw [room, fresh, Bool.not_true, Option.isSome_eq_false_iff, Option.isNone_iff_eq_none, and_comm]
  · intro again
    obtain ⟨entries, base⟩ := exists_entries root
    rw [assign_of_ground base below] at works ⊢
    rw [assign_of_ground base below, assign_of_ground rfl below, assignEntries_assignEntries works]
  · have stops := stops_of_assign root below fails
    refine ⟨stops, ?_⟩
    rcases stops.cases with conflict | ⟨missing, strict, absent, free⟩
    · exact .inl conflict
    · refine .inr ⟨missing, ?_⟩
      rintro (blocked | ⟨fresh, -⟩)
      · exact free blocked
      · cases strict.symm.trans fresh

/-- A configuration with a section and a scalar beside it. -/
def trainerTree : Tree :=
  .mapping [("trainer", .mapping [("epochs", .int 3)]), ("seed", .int 1)]

theorem assign_lawful_trainerTree :
    trainerTree.ground.isMapping = true
      ∧ (trainerTree.assign ["trainer", "schedule", "steps"] (.int 5) true).failure = none
      ∧ (trainerTree.assign ["trainer", "schedule", "steps"] (.int 5) true).tree.find ["trainer", "schedule", "steps"]
        = some (.int 5)
      ∧ (trainerTree.assign ["trainer", "schedule", "steps"] (.int 5) true).tree.find ["seed"] = some (.int 1)
      ∧ trainerTree.Stops true ["seed", "start"] (.componentNotMapping "seed" .int)
      ∧ trainerTree.Stops false ["trainer", "rate"] (.keyAbsent "rate") := by
  obtain ⟨-, adds, lands, -, -⟩ :=
    assign_lawful trainerTree ["trainer", "schedule", "steps"] (.int 5) true rfl (by decide)
  obtain ⟨-, -, -, stops, -⟩ := assign_lawful trainerTree ["seed", "start"] (.int 5) true rfl (by decide)
  obtain ⟨-, -, -, misses, -⟩ := assign_lawful trainerTree ["trainer", "rate"] (.int 5) false rfl (by decide)
  have there : trainerTree.find ["trainer"] = some (.mapping [("epochs", .int 3)]) := rfl
  have works := (adds rfl).2 (free_of_absent there rfl)
  obtain ⟨placed, -, stays, -⟩ := lands works
  exact ⟨rfl, works, placed, stays ["seed"] (by decide) (by decide), (stops _ rfl).1, (misses _ rfl).1⟩

end Tree

end LayeredConfig
