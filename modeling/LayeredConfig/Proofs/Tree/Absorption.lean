import LayeredConfig.Proofs.Tree.InPlace
import LayeredConfig.Proofs.Tree.MadeOf

/-!
# Merging again what was merged

A tree that was merged over another one is absorbed when it is merged again, and so is every part of it that is left
when entries are deleted: `merge_merge_of_partOf`, in place `merged_absorbs`. `Tree.PartOf` says what may be deleted, the
entries of mappings that are reached through mappings only. The induction is on what is left; it carries the lower tree
along, since under each key another one stands.
-/

namespace LayeredConfig

namespace Tree

mutual

/-- The first tree is the second one without some entries of the mappings that are reached through mappings only. -/
inductive PartOf : Tree → Tree → Prop
  | whole {tree : Tree} (noMapping : tree.isMapping = false) : PartOf tree tree
  | mapping {parts entries : List (String × Tree)} (inner : EntriesPartOf parts entries) :
      PartOf (.mapping parts) (.mapping entries)

/-- The first entries are the second ones without some of them, and with parts of the values of the others. -/
inductive EntriesPartOf : List (String × Tree) → List (String × Tree) → Prop
  | nil : EntriesPartOf [] []
  | delete {key : String} {value : Tree} {parts entries : List (String × Tree)} (rest : EntriesPartOf parts entries) :
      EntriesPartOf parts ((key, value) :: entries)
  | keep {key : String} {part value : Tree} {parts entries : List (String × Tree)} (inner : PartOf part value)
      (rest : EntriesPartOf parts entries) : EntriesPartOf ((key, part) :: parts) ((key, value) :: entries)

end

mutual

/-- Nothing has to be deleted. -/
theorem PartOf.refl : (tree : Tree) → tree.PartOf tree
  | .mapping entries => .mapping (EntriesPartOf.refl entries)
  | .null | .bool _ | .int _ | .double _ | .string _ | .sequence _ => .whole rfl

theorem EntriesPartOf.refl : (entries : List (String × Tree)) → EntriesPartOf entries entries
  | [] => .nil
  | (_, value) :: rest => .keep (PartOf.refl value) (EntriesPartOf.refl rest)

end

variable {lowers uppers : List (String × Tree)}

theorem null_merge (upper : Tree) : Tree.null.merge upper = upper := by
  cases upper <;> rfl

/-- An entry that is absent from the lower tree counts there as null. -/
theorem elim_merge (below : Option Tree) (upper : Tree) :
    (below.elim upper fun lower => lower.merge upper) = (below.getD .null).merge upper := by
  cases below with
  | none => exact (null_merge upper).symm
  | some lower => rfl

/-- Entries change nothing if each value is absorbed by the one that stands under its key already. -/
theorem mergeEntries_of_absorbed
    (absorbed : ∀ entry ∈ uppers, ∃ there, lowers.lookup entry.1 = some there ∧ there.merge entry.2 = there) :
    mergeEntries lowers uppers = lowers := by
  induction uppers with
  | nil => rfl
  | cons entry rest ih =>
    rw [List.forall_mem_cons] at absorbed
    obtain ⟨⟨there, found, same⟩, others⟩ := absorbed
    rw [mergeEntries_cons, found, Option.elim_some, same, Entries.put_of_lookup found]
    exact ih others

mutual

/-- A tree that was merged over another one absorbs its parts. -/
theorem merge_merge_of_partOf : {part upper : Tree} → part.PartOf upper → upper.HasDistinctKeys → (lower : Tree) →
    (lower.merge upper).merge part = lower.merge upper
  | _, _, .whole noMapping, _, lower => by rw [merge_of_not_mapping noMapping, merge_of_not_mapping noMapping]
  | .mapping parts, .mapping uppers, .mapping inner, ⟨keys, below⟩, lower => by
    obtain ⟨merged, same, -⟩ := exists_merge_mapping lower keys
    rw [same]
    refine congrArg mapping (mergeEntries_of_absorbed fun entry member => ?_)
    obtain ⟨value, known, absorbs⟩ := exists_absorbing inner below entry member
    refine ⟨((lower.child? entry.1).getD .null).merge value, ?_, absorbs _⟩
    rw [← child?_mapping, ← same, child?_merge lower keys, (Entries.lookup_eq_some_iff keys).2 known]
    exact congrArg some (elim_merge _ value)

/-- Each entry that is left was there with a value that absorbs it wherever it is merged. -/
theorem exists_absorbing : {parts uppers : List (String × Tree)} → EntriesPartOf parts uppers →
    EntriesHaveDistinctKeys uppers → ∀ entry ∈ parts, ∃ value, (entry.1, value) ∈ uppers
      ∧ ∀ lower : Tree, (lower.merge value).merge entry.2 = lower.merge value
  | _, _, .nil, _ => nofun
  | _, _, .delete rest, ⟨_, below⟩ => fun entry member => by
    obtain ⟨value, known, absorbs⟩ := exists_absorbing rest below entry member
    exact ⟨value, List.mem_cons_of_mem _ known, absorbs⟩
  | _, _, .keep inner rest, ⟨distinct, below⟩ => fun entry member => by
    rcases List.mem_cons.1 member with rfl | member
    · exact ⟨_, List.mem_cons_self, merge_merge_of_partOf inner distinct⟩
    · obtain ⟨value, known, absorbs⟩ := exists_absorbing rest below entry member
      exact ⟨value, List.mem_cons_of_mem _ known, absorbs⟩

end

end Tree

namespace Memory

variable {upper part : Tree}

/-- What was merged over a tree changes nothing when it is merged again, and neither does a part of it: not in the tree
that was made, not in a copy of that. -/
theorem merged_absorbs (lower : Tree) (distinct : upper.HasDistinctKeys) (partOf : part.PartOf upper) :
    (lower.merge upper).merge part = lower.merge upper
    ∧ (lower.merge upper).merge upper = lower.merge upper
    ∧ ∀ memory base override again cells outside others depth, Holds memory lower base cells →
        Holds memory upper override outside → Holds memory part again others → lower.nodeCount ≤ depth →
        upper.nodeCount < depth → part.nodeCount < depth →
        ∃ result memory' fresh, merged depth base override memory = some (result, memory')
          ∧ Holds memory' (lower.merge upper) result fresh
          ∧ (∃ memory'' fresh', mergeInto depth result again memory' = some ((), memory'')
            ∧ Holds memory'' (lower.merge upper) result fresh')
          ∧ ((lower.merge upper).nodeCount ≤ depth →
            ∃ copied memory'' fresh', merged depth result again memory' = some (copied, memory'')
              ∧ Holds memory'' (lower.merge upper) copied fresh') := by
  have absorbed := Tree.merge_merge_of_partOf partOf distinct lower
  refine ⟨absorbed, Tree.merge_merge_of_partOf (.refl upper) distinct lower, ?_⟩
  intro memory base override again cells outside others depth holds holds' part_holds enough enough' part_enough
  obtain ⟨result, memory', fresh, run, made, ⟨nodup, new⟩, same⟩ := merged_makes holds holds' enough enough'
  have stays := part_holds.frame fun cell member => same cell (part_holds.lt_length cell member)
  refine ⟨result, memory', fresh, run, made, ?_, fun room => ?_⟩
  · have apart : ∀ cell ∈ others, cell ∉ fresh := fun cell member known =>
      Nat.not_le.2 (part_holds.lt_length cell member) (new cell known)
    obtain ⟨memory'', fresh', run', -, made'⟩ := mergeInto_makes made nodup stays apart part_enough
    exact ⟨memory'', fresh', run', absorbed ▸ made'⟩
  · obtain ⟨copied, memory'', fresh', run', made', -⟩ := merged_makes made stays room part_enough
    exact ⟨copied, memory'', fresh', run', absorbed ▸ made'⟩

/-- A mapping with nulls, empty containers and values that stand against others of `conflictingTree`. -/
def settledTree : Tree :=
  .mapping [("n", .mapping [("k", .int 1)]), ("s", .sequence [.null]), ("a", .null), ("e", .mapping [])]

/-- A null over a mapping, a mapping over a sequence and over a null, a scalar over an empty mapping, and new keys. -/
def conflictingTree : Tree :=
  .mapping [("new", .sequence []), ("n", .null), ("s", .mapping [("j", .null), ("i", .mapping [])]),
    ("a", .mapping [("b", .int 2), ("c", .mapping [])]), ("e", .string "")]

/-- `conflictingTree` without an entry of the outer mapping and without entries of the inner ones. -/
def leftOver : Tree :=
  .mapping [("n", .null), ("s", .mapping [("i", .mapping [])]), ("a", .mapping []), ("e", .string "")]

theorem leftOver_partOf : leftOver.PartOf conflictingTree :=
  .mapping (.delete (.keep (.whole rfl) (.keep (.mapping (.delete (.keep (.mapping .nil) .nil)))
    (.keep (.mapping (.delete (.delete .nil))) (.keep (.whole rfl) .nil)))))

/-- `settledTree`, `conflictingTree` and `leftOver`, which share the cells of equal leaves. -/
def sharedTrees : Memory :=
  [.scalar .null, .mapping [], .sequence [], .scalar (.int 1), .scalar (.int 2), .scalar (.string ""),
    .mapping [("k", 3)], .sequence [0], .mapping [("n", 6), ("s", 7), ("a", 0), ("e", 1)],
    .mapping [("j", 0), ("i", 1)], .mapping [("b", 4), ("c", 1)],
    .mapping [("new", 2), ("n", 0), ("s", 9), ("a", 10), ("e", 5)],
    .mapping [("i", 1)], .mapping [("n", 0), ("s", 12), ("a", 1), ("e", 5)]]

theorem merged_absorbs_sharedTrees :
    conflictingTree.HasDistinctKeys ∧ leftOver.PartOf conflictingTree
      ∧ settledTree.merge conflictingTree = .mapping [("n", .null), ("s", .mapping [("j", .null), ("i", .mapping [])]),
        ("a", .mapping [("b", .int 2), ("c", .mapping [])]), ("e", .string ""), ("new", .sequence [])]
      ∧ (settledTree.merge conflictingTree).merge leftOver = settledTree.merge conflictingTree
      ∧ ∃ result memory' fresh, merged 20 8 11 sharedTrees = some (result, memory')
        ∧ Holds memory' (settledTree.merge conflictingTree) result fresh
        ∧ ∃ memory'' fresh', mergeInto 20 result 13 memory' = some ((), memory'')
          ∧ Holds memory'' (settledTree.merge conflictingTree) result fresh' := by
  have distinct : conflictingTree.HasDistinctKeys := by decide
  have empty {ref : Ref} (kept : sharedTrees[ref]? = some (.mapping [])) :
      Holds sharedTrees (.mapping []) ref [ref] := .mapping kept .nil
  have settled : Holds sharedTrees settledTree 8 [8, 6, 3, 7, 0, 0, 1] :=
    .mapping rfl (.cons (.mapping rfl (.cons (.scalar rfl rfl) .nil))
      (.cons (.sequence rfl (.cons (.scalar rfl rfl) .nil)) (.cons (.scalar rfl rfl) (.cons (empty rfl) .nil))))
  have conflicting : Holds sharedTrees conflictingTree 11 [11, 2, 0, 9, 0, 1, 10, 4, 1, 5] :=
    .mapping rfl (.cons (.sequence rfl .nil) (.cons (.scalar rfl rfl)
      (.cons (.mapping rfl (.cons (.scalar rfl rfl) (.cons (empty rfl) .nil)))
        (.cons (.mapping rfl (.cons (.scalar rfl rfl) (.cons (empty rfl) .nil))) (.cons (.scalar rfl rfl) .nil)))))
  have left : Holds sharedTrees leftOver 13 [13, 0, 12, 1, 1, 5] :=
    .mapping rfl (.cons (.scalar rfl rfl) (.cons (.mapping rfl (.cons (empty rfl) .nil))
      (.cons (empty rfl) (.cons (.scalar rfl rfl) .nil))))
  obtain ⟨absorbed, -, inPlace⟩ := merged_absorbs settledTree distinct leftOver_partOf
  obtain ⟨result, memory', fresh, run, made, again, -⟩ :=
    inPlace sharedTrees 8 11 13 _ _ _ 20 settled conflicting left (by decide) (by decide) (by decide)
  exact ⟨distinct, leftOver_partOf, rfl, absorbed, result, memory', fresh, run, made, again⟩

end Memory

end LayeredConfig
