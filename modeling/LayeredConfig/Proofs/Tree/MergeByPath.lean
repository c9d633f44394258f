import LayeredConfig.Proofs.Tree.Nodes
import LayeredConfig.Tree.Merge

/-!
# Merging, path by path

What a merged tree holds at a path is said by the two trees alone, `find_merge`: the node that the upper tree has there
laid over the one that the lower tree has, or what the lower tree has where the upper one ends, unless the upper tree
is `Blocked` by a node that is no mapping. `keys_mergeEntries` is the order of the keys: the old ones keep their places
and the new ones follow.

The upper tree must not hold a key twice, since entries are laid over one after another.
-/

namespace LayeredConfig

namespace Entries

variable {κ α : Type} [DecidableEq κ]

theorem lookup_eq_none_iff {key : κ} {entries : List (κ × α)} :
    entries.lookup key = none ↔ key ∉ entries.map Prod.fst := by
  rw [List.lookup_eq_none_iff]
  constructor
  · intro other member
    obtain ⟨entry, known, rfl⟩ := List.mem_map.1 member
    exact bne_iff_ne.1 (other entry known) rfl
  · intro absent entry known
    rw [bne_iff_ne]
    rintro rfl
    exact absent (List.mem_map_of_mem known)

theorem keys_put (key : κ) (value : α) (entries : List (κ × α)) :
    (put key value entries).map Prod.fst
      = if key ∈ entries.map Prod.fst then entries.map Prod.fst else entries.map Prod.fst ++ [key] := by
  induction entries with
  | nil => rfl
  | cons entry rest ih =>
    obtain ⟨k, v⟩ := entry
    by_cases same : k = key
    · subst same
      simp [put]
    · simp only [put, if_neg same, List.map_cons, ih, List.mem_cons, Ne.symm same, false_or]
      split <;> rfl

end Entries

namespace Tree

/-- The keys of a mapping in their order; no other node has any. -/
def keys : Tree → List String
  | .mapping entries => entries.map Prod.fst
  | _ => []

/-! ## Entries -/

theorem mergeEntries_cons (lowers rest : List (String × Tree)) (key : String) (value : Tree) :
    mergeEntries lowers ((key, value) :: rest)
      = mergeEntries (Entries.put key ((lowers.lookup key).elim value fun lower => lower.merge value) lowers) rest := by
  rw [mergeEntries]
  cases lowers.lookup key <;> rfl

theorem lookup_mergeEntries (lowers : List (String × Tree)) {uppers : List (String × Tree)}
    (distinct : (uppers.map Prod.fst).Nodup) (key : String) :
    (mergeEntries lowers uppers).lookup key =
      match uppers.lookup key with
      | some upper => some ((lowers.lookup key).elim upper fun lower => lower.merge upper)
      | none => lowers.lookup key := by
  induction uppers generalizing lowers with
  | nil => rfl
  | cons entry rest ih =>
    obtain ⟨k, v⟩ := entry
    rw [List.map_cons, List.nodup_cons] at distinct
    rw [mergeEntries_cons, ih _ distinct.2, List.lookup_cons, Entries.lookup_put]
    by_cases same : key = k
    · subst same
      rw [Entries.lookup_eq_none_iff.2 distinct.1, beq_self_eq_true, if_pos rfl]
    · rw [beq_eq_false_iff_ne.2 same, if_neg same]

/-- The keys that are there keep their places, and the new ones follow in their own order. -/
theorem keys_mergeEntries (lowers : List (String × Tree)) {uppers : List (String × Tree)}
    (distinct : (uppers.map Prod.fst).Nodup) :
    (mergeEntries lowers uppers).map Prod.fst
      = lowers.map Prod.fst ++ (uppers.map Prod.fst).filter fun key => key ∉ lowers.map Prod.fst := by
  induction uppers generalizing lowers with
  | nil => exact (List.append_nil _).symm
  | cons entry rest ih =>
    obtain ⟨k, v⟩ := entry
    rw [List.map_cons, List.nodup_cons] at distinct
    rw [mergeEntries_cons, ih _ distinct.2, Entries.keys_put, List.map_cons, List.filter_cons]
    by_cases known : k ∈ lowers.map Prod.fst
    · rw [if_pos known, if_neg (by simpa using known)]
    · rw [if_neg known, if_pos (by simpa using known), List.append_assoc, List.singleton_append]
      congr 2
      refine List.filter_congr fun key member => ?_
      have other : key ≠ k := fun same => distinct.1 (same ▸ member)
      simp [other]

/-- Laying one tree over another brings no keys that neither has. -/
theorem mem_keys_merge {lower upper : Tree} {key : String} (member : key ∈ (lower.merge upper).keys) :
    key ∈ lower.keys ∨ key ∈ upper.keys := by
  have laid (lowers uppers : List (String × Tree)) (member : key ∈ (mergeEntries lowers uppers).map Prod.fst) :
      key ∈ lowers.map Prod.fst ∨ key ∈ uppers.map Prod.fst := by
    induction uppers generalizing lowers with
    | nil => exact .inl member
    | cons entry rest ih =>
      obtain ⟨k, v⟩ := entry
      rw [mergeEntries_cons] at member
      rw [List.map_cons, List.mem_cons]
      rcases ih _ member with below | above
      · rw [Entries.keys_put] at below
        split at below
        · exact .inl below
        · exact (List.mem_append.1 below).imp_right fun single => .inl (List.mem_singleton.1 single)
      · exact .inr (.inr above)
  cases upper with
  | mapping uppers =>
    cases lower with
    | mapping lowers => exact laid lowers uppers member
    | null | bool | int | double | string | sequence => exact .inr member
  | null | bool | int | double | string | sequence => cases member

/-! ## One step along a path -/

theorem exists_entries {tree : Tree} (mapping : tree.isMapping = true) : ∃ entries, tree = .mapping entries := by
  cases tree with
  | mapping entries => exact ⟨entries, rfl⟩
  | null | bool | int | double | string | sequence => cases mapping

theorem merge_of_not_mapping {upper : Tree} (noMapping : upper.isMapping = false) (lower : Tree) :
    lower.merge upper = upper := by
  cases upper with
  | mapping => cases noMapping
  | null | bool | int | double | string | sequence => rfl

theorem child?_mapping (entries : List (String × Tree)) (key : String) :
    (mapping entries).child? key = entries.lookup key :=
  rfl

/-- Under a key stands what the upper mapping has there, laid over what the lower tree has. -/
theorem child?_merge (lower : Tree) {uppers : List (String × Tree)} (distinct : (uppers.map Prod.fst).Nodup)
    (key : String) :
    (lower.merge (.mapping uppers)).child? key =
      match uppers.lookup key with
      | some upper => some ((lower.child? key).elim upper fun below => below.merge upper)
      | none => lower.child? key := by
  cases lower with
  | mapping lowers => exact lookup_mergeEntries lowers distinct key
  | null | bool | int | double | string | sequence =>
    show uppers.lookup key = _
    cases uppers.lookup key <;> rfl

/-- A mapping laid over a tree is a mapping, and the keys that the tree has come first. -/
theorem exists_merge_mapping (lower : Tree) {uppers : List (String × Tree)} (distinct : (uppers.map Prod.fst).Nodup) :
    ∃ entries, lower.merge (.mapping uppers) = .mapping entries
      ∧ entries.map Prod.fst = lower.keys ++ (uppers.map Prod.fst).filter fun key => key ∉ lower.keys := by
  cases lower with
  | mapping lowers => exact ⟨_, rfl, keys_mergeEntries lowers distinct⟩
  | null | bool | int | double | string | sequence => exact ⟨uppers, rfl, (List.filter_eq_self.2 fun _ _ => by simp [keys]).symm⟩

/-- A path that leads through a node that is no mapping: one of its strict prefixes ends there. -/
def Blocked (tree : Tree) (path : KeyPath) : Prop :=
  ∃ front node, front <+: path ∧ front ≠ path ∧ tree.find front = some node ∧ node.isMapping = false

theorem not_blocked_nil (tree : Tree) : ¬tree.Blocked [] := by
  rintro ⟨front, node, begins, strict, -⟩
  exact strict (List.prefix_nil.1 begins)

theorem blocked_cons_iff {tree : Tree} {key : String} {rest : KeyPath} :
    tree.Blocked (key :: rest)
      ↔ tree.isMapping = false ∨ ∃ child, tree.child? key = some child ∧ child.Blocked rest := by
  constructor
  · rintro ⟨front, node, begins, strict, found, noMapping⟩
    cases front with
    | nil =>
      rw [find_nil] at found
      cases found
      exact Or.inl noMapping
    | cons first front =>
      obtain ⟨rfl, begins'⟩ := List.cons_prefix_cons.1 begins
      rw [find_cons] at found
      obtain ⟨child, below, inside⟩ := Option.bind_eq_some_iff.1 found
      exact Or.inr ⟨child, below, front, node, begins', fun same => strict (same ▸ rfl), inside, noMapping⟩
  · rintro (noMapping | ⟨child, below, front, node, begins, strict, inside, noMapping⟩)
    · exact ⟨[], tree, List.nil_prefix, List.cons_ne_nil _ _ ∘ Eq.symm, find_nil tree, noMapping⟩
    · refine ⟨key :: front, node, List.cons_prefix_cons.2 ⟨rfl, begins⟩, ?_, ?_, noMapping⟩
      · exact fun same => strict (List.cons.inj same).2
      · rw [find_cons, below]
        exact inside

/-- Nothing stands behind a node that is no mapping. -/
theorem Blocked.find_eq_none {tree : Tree} {path : KeyPath} (blocked : tree.Blocked path) :
    tree.find path = none := by
  induction path generalizing tree with
  | nil => exact absurd blocked (not_blocked_nil tree)
  | cons key rest ih =>
    rw [find_cons]
    rcases blocked_cons_iff.1 blocked with noMapping | ⟨child, below, blocked⟩
    · cases tree with
      | mapping => cases noMapping
      | null | bool | int | double | string | sequence => rfl
    · rw [below]
      exact ih blocked

/-! ## Whole paths -/

open Classical in
/-- At a path stands what the upper tree has there, laid over what the lower tree has, and otherwise what the lower
tree has, unless the upper tree blocks the path. -/
theorem find_merge (lower : Tree) {upper : Tree} (distinct : upper.HasDistinctKeys) (path : KeyPath) :
    (lower.merge upper).find path =
      match upper.find path with
      | some node => some ((lower.find path).elim node fun below => below.merge node)
      | none => if upper.Blocked path then none else lower.find path := by
  induction path generalizing lower upper with
  | nil => simp only [find_nil, Option.elim_some]
  | cons key rest ih =>
    cases kind : upper.isMapping with
    | false =>
      have blocked : upper.Blocked (key :: rest) := blocked_cons_iff.2 (Or.inl kind)
      rw [merge_of_not_mapping kind, blocked.find_eq_none]
      exact (if_pos blocked).symm
    | true =>
      obtain ⟨uppers, rfl⟩ := exists_entries kind
      obtain ⟨keys, below⟩ := distinct
      have blocked := @blocked_cons_iff (.mapping uppers) key rest
      simp only [find_cons, child?_merge lower keys]
      simp only [child?_mapping, isMapping, Bool.true_eq_false, false_or] at blocked ⊢
      cases found : uppers.lookup key with
      | none =>
        simp only [found, reduceCtorEq, false_and, exists_false, iff_false] at blocked
        simp only [Option.bind_none, if_neg blocked]
      | some upper =>
        have member := (Entries.lookup_eq_some_iff keys).1 found
        have distinct := entriesHaveDistinctKeys_iff.1 below _ member
        simp only [found, Option.some.injEq, exists_eq_left'] at blocked
        simp only [Option.bind_some, blocked]
        cases lower.child? key with
        | some below => exact ih below distinct
        | none =>
          simp only [Option.elim_none, Option.bind_none]
          cases upper.find rest with
          | some node => rfl
          | none => exact (ite_self _).symm

end Tree

end LayeredConfig
