import LayeredConfig.Tree.Basic

/-!
# The order of entries

`Tree.Alike` is sameness up to the order of entries: the same kind and value at every position, the two zeros told
apart, sequences in the same order and the same keys in every mapping. `Tree.ordered` puts the entries of every mapping
in the order of their keys, and is alike what it was.
-/

namespace LayeredConfig

namespace Entries

variable {κ α β : Type} [DecidableEq κ]

theorem lookup_eq_some_iff {key : κ} {value : α} {entries : List (κ × α)}
    (distinct : (entries.map Prod.fst).Nodup) :
    entries.lookup key = some value ↔ (key, value) ∈ entries := by
  induction entries with
  | nil => simp
  | cons entry rest ih =>
    obtain ⟨k, v⟩ := entry
    rw [List.map_cons, List.nodup_cons] at distinct
    rw [List.lookup_cons, List.mem_cons]
    by_cases same : key = k
    · subst same
      have absent : (key, value) ∉ rest := fun member =>
        distinct.1 (List.mem_map.2 ⟨_, member, rfl⟩)
      simp [absent, eq_comm]
    · rw [beq_eq_false_iff_ne.2 same]
      simp [same, ih distinct.2]

/-- The order of entries does not matter to a lookup. -/
theorem lookup_of_perm {key : κ} {entries others : List (κ × α)}
    (distinct : (entries.map Prod.fst).Nodup) (perm : entries.Perm others) :
    others.lookup key = entries.lookup key := by
  have distinct' : (others.map Prod.fst).Nodup := (perm.map Prod.fst).nodup distinct
  apply Option.ext
  intro value
  rw [lookup_eq_some_iff distinct', lookup_eq_some_iff distinct, perm.mem_iff]

theorem sortByKey_perm (entries : List (String × α)) : (sortByKey entries).Perm entries :=
  List.mergeSort_perm _ _

/-- What is done to each entry under its key may be done before or after sorting. -/
theorem sortByKey_map (f : String × α → String × β) (keeps : ∀ entry, (f entry).1 = entry.1)
    (entries : List (String × α)) : sortByKey (entries.map f) = (sortByKey entries).map f := by
  unfold sortByKey
  rw [List.map_mergeSort]
  intro a _ b _
  rw [keeps, keeps]

theorem pairwise_sortByKey (entries : List (String × α)) :
    (sortByKey entries).Pairwise fun a b => !(b.1 < a.1) := by
  refine List.pairwise_mergeSort (fun a b c first second => ?_) (fun a b => ?_) entries
  · simp only [Bool.not_eq_true', decide_eq_false_iff_not, String.not_lt] at *
    exact String.le_trans first second
  · simp only [Bool.or_eq_true, Bool.not_eq_true', decide_eq_false_iff_not, String.not_lt]
    exact String.le_total a.1 b.1

/-- Entries that are sorted stay as they are when they are sorted again. -/
theorem sortByKey_sortByKey (entries : List (String × α)) : sortByKey (sortByKey entries) = sortByKey entries :=
  List.mergeSort_of_pairwise (pairwise_sortByKey entries)

/-- A new key goes to the end. -/
theorem put_of_not_mem {key : κ} {value : α} {entries : List (κ × α)}
    (absent : key ∉ entries.map Prod.fst) : put key value entries = entries ++ [(key, value)] := by
  induction entries with
  | nil => rfl
  | cons entry rest ih =>
    obtain ⟨k, v⟩ := entry
    rw [List.map_cons, List.mem_cons, not_or] at absent
    rw [put, if_neg (Ne.symm absent.1), ih absent.2, List.cons_append]

end Entries

namespace Tree

mutual

/-- The tree with the entries of every mapping in increasing order of their keys. -/
def ordered : Tree → Tree
  | .sequence items => .sequence (itemsOrdered items)
  | .mapping entries => .mapping (Entries.sortByKey (entriesOrdered entries))
  | .null => .null
  | .bool value => .bool value
  | .int value => .int value
  | .double value => .double value
  | .string text => .string text

/-- The items of a sequence, each ordered. -/
def itemsOrdered : List Tree → List Tree
  | [] => []
  | item :: rest => item.ordered :: itemsOrdered rest

/-- The entries of a mapping in their own order, each value ordered. -/
def entriesOrdered : List (String × Tree) → List (String × Tree)
  | [] => []
  | (key, value) :: rest => (key, value.ordered) :: entriesOrdered rest

end

mutual

/-- The same kind and value at every position, and the same keys in every mapping. -/
def Alike : Tree → Tree → Prop
  | .sequence xs, other =>
    match other with
    | .sequence ys => ItemsAlike xs ys
    | _ => False
  | .mapping xs, other =>
    match other with
    | .mapping ys => (∀ key, key ∈ xs.map Prod.fst ↔ key ∈ ys.map Prod.fst) ∧ EntriesAlike xs ys
    | _ => False
  | .null, other => other = .null
  | .bool value, other => other = .bool value
  | .int value, other => other = .int value
  | .double value, other => other = .double value
  | .string text, other => other = .string text

/-- Items that are alike one by one. -/
def ItemsAlike : List Tree → List Tree → Prop
  | [], others => others = []
  | x :: xs, others =>
    match others with
    | [] => False
    | y :: ys => x.Alike y ∧ ItemsAlike xs ys

/-- Each entry of the first list has a value alike under its key in the second. -/
def EntriesAlike : List (String × Tree) → List (String × Tree) → Prop
  | [], _ => True
  | (key, x) :: xs, ys => (∃ y, ys.lookup key = some y ∧ x.Alike y) ∧ EntriesAlike xs ys

end

theorem entriesOrdered_eq_map (entries : List (String × Tree)) :
    entriesOrdered entries = entries.map fun entry => (entry.1, entry.2.ordered) := by
  induction entries with
  | nil => rfl
  | cons entry rest ih => rw [entriesOrdered, ih, List.map_cons]

theorem keys_entriesOrdered (entries : List (String × Tree)) :
    (entriesOrdered entries).map Prod.fst = entries.map Prod.fst := by
  rw [entriesOrdered_eq_map, List.map_map]
  rfl

mutual

/-- Ordering changes nothing but the order of entries. -/
theorem alike_ordered : (tree : Tree) → tree.HasDistinctKeys → tree.Alike tree.ordered
  | .null, _ => rfl
  | .bool _, _ => rfl
  | .int _, _ => rfl
  | .double _, _ => rfl
  | .string _, _ => rfl
  | .sequence items, distinct => items_alike_ordered items distinct
  | .mapping entries, ⟨distinct, below⟩ => by
    have perm := Entries.sortByKey_perm (entriesOrdered entries)
    have keys := keys_entriesOrdered entries
    refine ⟨fun key => ?_, ?_⟩
    · rw [(perm.map Prod.fst).mem_iff, keys]
    · refine entries_alike_ordered entries below fun key value member => ?_
      rw [← keys] at distinct
      rw [Entries.lookup_of_perm distinct perm.symm, Entries.lookup_eq_some_iff distinct,
        entriesOrdered_eq_map]
      exact List.mem_map.2 ⟨_, member, rfl⟩

theorem items_alike_ordered : (items : List Tree) → ItemsHaveDistinctKeys items →
    ItemsAlike items (itemsOrdered items)
  | [], _ => rfl
  | item :: rest, ⟨distinct, below⟩ => ⟨alike_ordered item distinct, items_alike_ordered rest below⟩

theorem entries_alike_ordered {others : List (String × Tree)} : (entries : List (String × Tree)) →
    EntriesHaveDistinctKeys entries →
    (∀ key value, (key, value) ∈ entries → others.lookup key = some value.ordered) →
    EntriesAlike entries others
  | [], _, _ => trivial
  | (key, value) :: rest, ⟨distinct, below⟩, found =>
    ⟨⟨_, found key value List.mem_cons_self, alike_ordered value distinct⟩,
      entries_alike_ordered rest below fun key value member =>
        found key value (List.mem_cons_of_mem _ member)⟩

end

mutual

/-- Decides whether no mapping of a tree holds a key twice. -/
def decideHasDistinctKeys : (tree : Tree) → Decidable tree.HasDistinctKeys
  | .null | .bool _ | .int _ | .double _ | .string _ => isTrue trivial
  | .sequence items => decideItemsHaveDistinctKeys items
  | .mapping entries =>
    have := decideEntriesHaveDistinctKeys entries
    inferInstanceAs (Decidable ((entries.map Prod.fst).Nodup ∧ EntriesHaveDistinctKeys entries))

/-- Decides whether no mapping of the items holds a key twice. -/
def decideItemsHaveDistinctKeys : (items : List Tree) → Decidable (ItemsHaveDistinctKeys items)
  | [] => isTrue trivial
  | item :: rest =>
    have := decideHasDistinctKeys item
    have := decideItemsHaveDistinctKeys rest
    inferInstanceAs (Decidable (item.HasDistinctKeys ∧ ItemsHaveDistinctKeys rest))

/-- Decides whether no mapping below the entries holds a key twice. -/
def decideEntriesHaveDistinctKeys : (entries : List (String × Tree)) →
    Decidable (EntriesHaveDistinctKeys entries)
  | [] => isTrue trivial
  | (_, value) :: rest =>
    have := decideHasDistinctKeys value
    have := decideEntriesHaveDistinctKeys rest
    inferInstanceAs (Decidable (value.HasDistinctKeys ∧ EntriesHaveDistinctKeys rest))

end

instance (tree : Tree) : Decidable tree.HasDistinctKeys :=
  decideHasDistinctKeys tree

theorem entriesHaveDistinctKeys_iff {entries : List (String × Tree)} :
    EntriesHaveDistinctKeys entries ↔ ∀ entry ∈ entries, entry.2.HasDistinctKeys := by
  induction entries with
  | nil => simp [EntriesHaveDistinctKeys]
  | cons entry rest ih =>
    rw [EntriesHaveDistinctKeys, ih, List.forall_mem_cons]

mutual

/-- No key comes twice in an ordered tree either. -/
theorem hasDistinctKeys_ordered : (tree : Tree) → tree.HasDistinctKeys → tree.ordered.HasDistinctKeys
  | .null, _ => trivial
  | .bool _, _ => trivial
  | .int _, _ => trivial
  | .double _, _ => trivial
  | .string _, _ => trivial
  | .sequence items, distinct => itemsHaveDistinctKeys_ordered items distinct
  | .mapping entries, ⟨distinct, below⟩ => by
    have perm := Entries.sortByKey_perm (entriesOrdered entries)
    refine ⟨(perm.map Prod.fst).symm.nodup (by rwa [keys_entriesOrdered]), ?_⟩
    rw [entriesHaveDistinctKeys_iff]
    intro entry member
    exact entriesHaveDistinctKeys_iff.1 (entriesHaveDistinctKeys_ordered entries below) entry
      (perm.mem_iff.1 member)

theorem itemsHaveDistinctKeys_ordered : (items : List Tree) → ItemsHaveDistinctKeys items →
    ItemsHaveDistinctKeys (itemsOrdered items)
  | [], _ => trivial
  | item :: rest, ⟨distinct, below⟩ =>
    ⟨hasDistinctKeys_ordered item distinct, itemsHaveDistinctKeys_ordered rest below⟩

theorem entriesHaveDistinctKeys_ordered : (entries : List (String × Tree)) →
    EntriesHaveDistinctKeys entries → EntriesHaveDistinctKeys (entriesOrdered entries)
  | [], _ => trivial
  | (_, value) :: rest, ⟨distinct, below⟩ =>
    ⟨hasDistinctKeys_ordered value distinct, entriesHaveDistinctKeys_ordered rest below⟩

end

mutual

/-- A tree that is ordered stays as it is when it is ordered again. -/
theorem ordered_ordered : (tree : Tree) → tree.ordered.ordered = tree.ordered
  | .sequence items => congrArg Tree.sequence (itemsOrdered_itemsOrdered items)
  | .mapping entries => by
    have sorted := Entries.sortByKey_map (fun entry => (entry.1, entry.2.ordered)) (fun _ => rfl) (entriesOrdered entries)
    rw [← entriesOrdered_eq_map, ← entriesOrdered_eq_map, entriesOrdered_entriesOrdered entries] at sorted
    rw [ordered, ordered, ← sorted, Entries.sortByKey_sortByKey]
  | .null => rfl
  | .bool _ => rfl
  | .int _ => rfl
  | .double _ => rfl
  | .string _ => rfl

theorem itemsOrdered_itemsOrdered : (items : List Tree) → itemsOrdered (itemsOrdered items) = itemsOrdered items
  | [] => rfl
  | item :: rest => by
    rw [itemsOrdered, itemsOrdered, ordered_ordered item, itemsOrdered_itemsOrdered rest]

theorem entriesOrdered_entriesOrdered : (entries : List (String × Tree)) →
    entriesOrdered (entriesOrdered entries) = entriesOrdered entries
  | [] => rfl
  | (_, value) :: rest => by
    rw [entriesOrdered, entriesOrdered, ordered_ordered value, entriesOrdered_entriesOrdered rest]

end

end Tree

end LayeredConfig
