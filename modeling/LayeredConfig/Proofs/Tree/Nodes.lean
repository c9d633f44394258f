import LayeredConfig.Proofs.Number.Digits
import LayeredConfig.Proofs.Tree.Ordered
import LayeredConfig.Tree.Address

/-!
# Nodes of a tree

`NodeAt` relates an address to the node that stands there, with one rule for the items of a sequence and one for the
entries of a mapping. A tree whose mappings hold no key twice has one node at an address, and `Tree.addresses` lists
each address once. What `Tree.find` finds stands at the path that it followed.
-/

namespace LayeredConfig.Tree

/-- The node that stands at an address of a tree. -/
inductive NodeAt (root : Tree) : KeyPath → Tree → Prop
  | root : NodeAt root [] root
  | item {path : KeyPath} {items : List Tree} {position : Nat} {item : Tree}
      (parent : NodeAt root path (.sequence items)) (found : items[position]? = some item) :
      NodeAt root (itemAddress path position) item
  | entry {path : KeyPath} {entries : List (String × Tree)} {key : String} {value : Tree}
      (parent : NodeAt root path (.mapping entries)) (member : (key, value) ∈ entries) :
      NodeAt root (entryAddress path key) value

theorem itemsHaveDistinctKeys_iff {items : List Tree} :
    ItemsHaveDistinctKeys items ↔ ∀ item ∈ items, item.HasDistinctKeys := by
  induction items with
  | nil => simp [ItemsHaveDistinctKeys]
  | cons item rest ih => rw [ItemsHaveDistinctKeys, ih, List.forall_mem_cons]

variable {root : Tree}

theorem NodeAt.hasDistinctKeys {path : KeyPath} {node : Tree} (distinct : root.HasDistinctKeys)
    (stands : root.NodeAt path node) : node.HasDistinctKeys := by
  induction stands with
  | root => exact distinct
  | item _ found ih => exact itemsHaveDistinctKeys_iff.1 ih _ (List.mem_of_getElem? found)
  | entry _ member ih => exact entriesHaveDistinctKeys_iff.1 ih.2 _ member

theorem itemAddress_injective {path path' : KeyPath} {position position' : Nat}
    (same : itemAddress path position = itemAddress path' position') : path = path' ∧ position = position' := by
  obtain ⟨rfl, last⟩ := List.append_inj' same rfl
  refine ⟨rfl, decimalDigits_injective ?_⟩
  rw [List.cons.injEq, String.ofList_inj] at last
  exact last.1

theorem entryAddress_injective {path path' : KeyPath} {key key' : String}
    (same : entryAddress path key = entryAddress path' key') : path = path' ∧ key = key' := by
  obtain ⟨rfl, last⟩ := List.append_inj' same rfl
  rw [List.cons.injEq] at last
  exact ⟨rfl, last.1⟩

theorem parent_of_itemAddress {path path' : KeyPath} {position : Nat} {key : String}
    (same : itemAddress path position = entryAddress path' key) : path = path' :=
  (List.append_inj' same rfl).1

/-- One node stands at an address. -/
theorem NodeAt.unique {path : KeyPath} {node other : Tree} (distinct : root.HasDistinctKeys)
    (stands : root.NodeAt path node) (stands' : root.NodeAt path other) : node = other := by
  induction stands generalizing other with
  | root =>
    generalize empty : ([] : KeyPath) = path at stands'
    cases stands' with
    | root => rfl
    | item => exact absurd empty.symm (by simp [itemAddress])
    | entry => exact absurd empty.symm (by simp [entryAddress])
  | item parent found ih =>
    rename_i path items position item
    generalize address : itemAddress path position = address at stands'
    cases stands' with
    | root => exact absurd address (by simp [itemAddress])
    | item parent' found' =>
      obtain ⟨rfl, rfl⟩ := itemAddress_injective address
      cases ih parent'
      exact Option.some.inj (found.symm.trans found')
    | entry parent' =>
      cases parent_of_itemAddress address
      cases ih parent'
  | entry parent member ih =>
    rename_i path entries key value
    generalize address : entryAddress path key = address at stands'
    cases stands' with
    | root => exact absurd address (by simp [entryAddress])
    | item parent' =>
      cases parent_of_itemAddress address.symm
      cases ih parent'
    | entry parent' member' =>
      obtain ⟨rfl, rfl⟩ := entryAddress_injective address
      cases ih parent'
      have keys := (parent.hasDistinctKeys distinct).1
      exact Option.some.inj (((Entries.lookup_eq_some_iff keys).2 member).symm.trans
        ((Entries.lookup_eq_some_iff keys).2 member'))

/-! ## The children of a node -/

/-- What holds of all items from a position on, each with its address. -/
def AllItems (holds : KeyPath → Tree → Prop) (path : KeyPath) : Nat → List Tree → Prop
  | _, [] => True
  | position, item :: rest =>
    holds (itemAddress path position) item ∧ AllItems holds path (position + 1) rest

/-- What holds of all entries, each with its address. -/
def AllEntries (holds : KeyPath → Tree → Prop) (path : KeyPath) : List (String × Tree) → Prop
  | [] => True
  | (key, value) :: rest => holds (entryAddress path key) value ∧ AllEntries holds path rest

theorem allItems_iff {holds : KeyPath → Tree → Prop} {path : KeyPath} {start : Nat} {items : List Tree} :
    AllItems holds path start items ↔
      ∀ position item, items[position]? = some item → holds (itemAddress path (start + position)) item := by
  induction items generalizing start with
  | nil => exact ⟨fun _ => nofun, fun _ => trivial⟩
  | cons first rest ih =>
    have address (position : Nat) : start + 1 + position = start + (position + 1) := by omega
    rw [AllItems, ih]
    constructor
    · intro holds position item found
      rcases holds with ⟨head, tail⟩
      cases position with
      | zero =>
        cases found
        exact head
      | succ position =>
        rw [← address]
        exact tail position item found
    · intro all
      refine ⟨all 0 first rfl, fun position item found => ?_⟩
      rw [address]
      exact all (position + 1) item found

theorem allItems_zero_iff {holds : KeyPath → Tree → Prop} {path : KeyPath} {items : List Tree} :
    AllItems holds path 0 items ↔
      ∀ position item, items[position]? = some item → holds (itemAddress path position) item := by
  rw [allItems_iff]
  simp only [Nat.zero_add]

theorem allEntries_iff {holds : KeyPath → Tree → Prop} {path : KeyPath} {entries : List (String × Tree)} :
    AllEntries holds path entries ↔
      ∀ key value, (key, value) ∈ entries → holds (entryAddress path key) value := by
  induction entries with
  | nil => exact ⟨fun _ => nofun, fun _ => trivial⟩
  | cons first rest ih =>
    obtain ⟨key, value⟩ := first
    rw [AllEntries, ih]
    constructor
    · intro holds key' value' member
      rcases holds with ⟨head, tail⟩
      rcases List.mem_cons.1 member with same | member
      · cases same
        exact head
      · exact tail key' value' member
    · intro all
      exact ⟨all key value List.mem_cons_self, fun key' value' member =>
        all key' value' (List.mem_cons_of_mem _ member)⟩

theorem NodeAt.items {path : KeyPath} {items : List Tree} (stands : root.NodeAt path (.sequence items)) :
    AllItems root.NodeAt path 0 items :=
  allItems_zero_iff.2 fun _ _ found => stands.item found

theorem NodeAt.entries {path : KeyPath} {entries : List (String × Tree)}
    (stands : root.NodeAt path (.mapping entries)) : AllEntries root.NodeAt path entries :=
  allEntries_iff.2 fun _ _ member => stands.entry member

/-! ## Following a path -/

/-- What is found below a node stands below its address. -/
theorem NodeAt.find {path rest : KeyPath} {node inner : Tree} (stands : root.NodeAt path node)
    (found : node.find rest = some inner) : root.NodeAt (path ++ rest) inner := by
  induction rest generalizing path node with
  | nil =>
    rw [find_nil] at found
    cases found
    rwa [List.append_nil]
  | cons key rest ih =>
    rw [find_cons] at found
    obtain ⟨child, below, inside⟩ := Option.bind_eq_some_iff.1 found
    cases node with
    | mapping entries =>
      have member : (key, child) ∈ entries := by
        obtain ⟨front, back, rfl, -⟩ := List.lookup_eq_some_iff.1 below
        simp
      have child := ih (stands.entry member) inside
      rwa [entryAddress, List.append_assoc] at child
    | null | bool | int | double | string | sequence => cases below

theorem nodeAt_of_find {path : KeyPath} {node : Tree} (found : root.find path = some node) :
    root.NodeAt path node :=
  NodeAt.root.find found

theorem lookup_mapEntryStrings (f : KeyPath → String → String) (path : KeyPath)
    (entries : List (String × Tree)) (key : String) :
    (mapEntryStrings f path entries).lookup key
      = (entries.lookup key).map fun value => value.mapStrings f (entryAddress path key) := by
  induction entries with
  | nil => rfl
  | cons entry rest ih =>
    obtain ⟨k, v⟩ := entry
    rw [mapEntryStrings, List.lookup_cons, List.lookup_cons]
    by_cases same : key = k
    · subst same
      rw [beq_self_eq_true]
      rfl
    · rw [beq_eq_false_iff_ne.2 same]
      exact ih

theorem child?_mapStrings (f : KeyPath → String → String) (path : KeyPath) (node : Tree) (key : String) :
    (node.mapStrings f path).child? key
      = (node.child? key).map fun child => child.mapStrings f (entryAddress path key) := by
  cases node with
  | mapping entries => exact lookup_mapEntryStrings f path entries key
  | null | bool | int | double | string | sequence => rfl

/-- Changing the strings of a tree changes each node where it stands. -/
theorem find_mapStrings (f : KeyPath → String → String) (path target : KeyPath) (node : Tree) :
    (node.mapStrings f path).find target
      = (node.find target).map fun inner => inner.mapStrings f (path ++ target) := by
  induction target generalizing path node with
  | nil => rw [find_nil, find_nil, List.append_nil, Option.map_some]
  | cons key rest ih =>
    rw [find_cons, find_cons, child?_mapStrings]
    cases node.child? key with
    | none => rfl
    | some child =>
      rw [Option.map_some, Option.bind_some, Option.bind_some, ih, entryAddress, List.append_assoc]
      rfl

theorem getElem?_mapItemStrings (f : KeyPath → String → String) (path : KeyPath) (start : Nat) (items : List Tree)
    (position : Nat) :
    (mapItemStrings f path start items)[position]?
      = items[position]?.map fun item => item.mapStrings f (itemAddress path (start + position)) := by
  induction items generalizing start position with
  | nil => rfl
  | cons item rest ih =>
    cases position with
    | zero => rfl
    | succ position =>
      rw [mapItemStrings, List.getElem?_cons_succ, List.getElem?_cons_succ, ih, Nat.add_right_comm, Nat.add_assoc]

theorem mem_mapEntryStrings (f : KeyPath → String → String) {path : KeyPath} {key : String} {value : Tree}
    {entries : List (String × Tree)} (member : (key, value) ∈ entries) :
    (key, value.mapStrings f (entryAddress path key)) ∈ mapEntryStrings f path entries := by
  induction entries with
  | nil => cases member
  | cons entry rest ih =>
    rw [mapEntryStrings]
    rcases List.mem_cons.1 member with rfl | member
    · exact List.mem_cons_self
    · exact List.mem_cons_of_mem _ (ih member)

/-- Changing the strings of a tree leaves every node at its address. -/
theorem NodeAt.mapStrings (f : KeyPath → String → String) {path : KeyPath} {node : Tree}
    (stands : root.NodeAt path node) : (root.mapStrings f []).NodeAt path (node.mapStrings f path) := by
  induction stands with
  | root => exact .root
  | item _ found ih =>
    refine .item ih ?_
    rw [getElem?_mapItemStrings, found, Nat.zero_add]
    rfl
  | entry _ member ih => exact .entry ih (mem_mapEntryStrings f member)

/-! ## The list of addresses -/

theorem mem_addresses_self (path : KeyPath) (node : Tree) : path ∈ node.addresses path := by
  cases node <;> simp [addresses]

/-- The addresses of a node are listed among those of its parent. -/
theorem allItems_addresses_subset (path : KeyPath) (items : List Tree) (start : Nat) :
    AllItems (fun address item => item.addresses address ⊆ itemAddresses path start items) path start items := by
  suffices within : ∀ listed, itemAddresses path start items ⊆ listed →
      AllItems (fun address item => item.addresses address ⊆ listed) path start items from
    within _ (List.Subset.refl _)
  induction items generalizing start with
  | nil => exact fun _ _ => trivial
  | cons item rest ih =>
    intro listed within
    rw [itemAddresses, List.append_subset] at within
    exact ⟨within.1, ih (start + 1) listed within.2⟩

theorem allEntries_addresses_subset (path : KeyPath) (entries : List (String × Tree)) :
    AllEntries (fun address value => value.addresses address ⊆ entryAddresses path entries) path entries := by
  suffices within : ∀ listed, entryAddresses path entries ⊆ listed →
      AllEntries (fun address value => value.addresses address ⊆ listed) path entries from
    within _ (List.Subset.refl _)
  induction entries with
  | nil => exact fun _ _ => trivial
  | cons entry rest ih =>
    intro listed within
    rw [entryAddresses, List.append_subset] at within
    exact ⟨within.1, ih listed within.2⟩

theorem NodeAt.addresses_subset {path : KeyPath} {node : Tree} (stands : root.NodeAt path node) :
    node.addresses path ⊆ root.addresses [] := by
  induction stands with
  | root => exact List.Subset.refl _
  | @item path items position item _ found ih =>
    have below := allItems_zero_iff.1 (allItems_addresses_subset path items 0) position item found
    rw [addresses, List.cons_subset] at ih
    exact List.Subset.trans below ih.2
  | @entry path entries key value _ member ih =>
    have below := allEntries_iff.1 (allEntries_addresses_subset path entries) key value member
    rw [addresses, List.cons_subset] at ih
    exact List.Subset.trans below ih.2

theorem NodeAt.mem_addresses {path : KeyPath} {node : Tree} (stands : root.NodeAt path node) :
    path ∈ root.addresses [] :=
  stands.addresses_subset (mem_addresses_self path node)

mutual

/-- Every address of a tree begins with the path that the tree stands at. -/
theorem prefix_of_mem_addresses {path address : KeyPath} : (node : Tree) →
    address ∈ node.addresses path → path <+: address
  | .null, member => (List.mem_singleton.1 member) ▸ List.prefix_refl _
  | .bool _, member => (List.mem_singleton.1 member) ▸ List.prefix_refl _
  | .int _, member => (List.mem_singleton.1 member) ▸ List.prefix_refl _
  | .double _, member => (List.mem_singleton.1 member) ▸ List.prefix_refl _
  | .string _, member => (List.mem_singleton.1 member) ▸ List.prefix_refl _
  | .sequence items, member => by
    rw [addresses] at member
    rcases List.mem_cons.1 member with rfl | member
    · exact List.prefix_refl _
    · obtain ⟨position, -, begins⟩ := prefix_of_mem_itemAddresses items member
      exact (List.prefix_append _ _).trans begins
  | .mapping entries, member => by
    rw [addresses] at member
    rcases List.mem_cons.1 member with rfl | member
    · exact List.prefix_refl _
    · obtain ⟨key, -, begins⟩ := prefix_of_mem_entryAddresses entries member
      exact (List.prefix_append _ _).trans begins

theorem prefix_of_mem_itemAddresses {path address : KeyPath} {start : Nat} : (items : List Tree) →
    address ∈ itemAddresses path start items →
    ∃ position, start ≤ position ∧ itemAddress path position <+: address
  | [], member => by cases member
  | item :: rest, member => by
    rw [itemAddresses] at member
    rcases List.mem_append.1 member with member | member
    · exact ⟨start, Nat.le_refl _, prefix_of_mem_addresses item member⟩
    · obtain ⟨position, later, begins⟩ := prefix_of_mem_itemAddresses rest member
      exact ⟨position, by omega, begins⟩

theorem prefix_of_mem_entryAddresses {path address : KeyPath} : (entries : List (String × Tree)) →
    address ∈ entryAddresses path entries →
    ∃ key ∈ entries.map Prod.fst, entryAddress path key <+: address
  | [], member => by cases member
  | (key, value) :: rest, member => by
    rw [entryAddresses] at member
    rcases List.mem_append.1 member with member | member
    · exact ⟨key, List.mem_cons_self, prefix_of_mem_addresses value member⟩
    · obtain ⟨other, known, begins⟩ := prefix_of_mem_entryAddresses rest member
      exact ⟨other, List.mem_cons_of_mem _ known, begins⟩

end

theorem not_prefix_self (path : KeyPath) (key : String) : ¬entryAddress path key <+: path := by
  intro begins
  have := begins.length_le
  rw [entryAddress, List.length_append, List.length_singleton] at this
  omega

/-- An address lies below one child of a node only. -/
theorem child_unique {path address : KeyPath} {key key' : String}
    (begins : entryAddress path key <+: address) (begins' : entryAddress path key' <+: address) :
    key = key' := by
  have same := List.prefix_of_prefix_length_le begins begins' (by simp [entryAddress])
  exact (entryAddress_injective (same.eq_of_length (by simp [entryAddress]))).2

mutual

/-- No address of a tree is listed twice. -/
theorem nodup_addresses {path : KeyPath} : (node : Tree) → node.HasDistinctKeys →
    (node.addresses path).Nodup
  | .null, _ | .bool _, _ | .int _, _ | .double _, _ | .string _, _ => by simp [addresses]
  | .sequence items, distinct => by
    rw [addresses, List.nodup_cons]
    refine ⟨fun member => ?_, nodup_itemAddresses items distinct⟩
    obtain ⟨position, -, begins⟩ := prefix_of_mem_itemAddresses items member
    exact not_prefix_self path _ begins
  | .mapping entries, ⟨distinct, below⟩ => by
    rw [addresses, List.nodup_cons]
    refine ⟨fun member => ?_, nodup_entryAddresses entries distinct below⟩
    obtain ⟨key, -, begins⟩ := prefix_of_mem_entryAddresses entries member
    exact not_prefix_self path key begins

theorem nodup_itemAddresses {path : KeyPath} {start : Nat} : (items : List Tree) →
    ItemsHaveDistinctKeys items → (itemAddresses path start items).Nodup
  | [], _ => List.nodup_nil
  | item :: rest, ⟨distinct, below⟩ => by
    rw [itemAddresses, List.nodup_append]
    refine ⟨nodup_addresses item distinct, nodup_itemAddresses rest below, ?_⟩
    intro address first _ later same
    subst same
    obtain ⟨position, after, begins⟩ := prefix_of_mem_itemAddresses rest later
    have same := child_unique (prefix_of_mem_addresses item first) begins
    have := decimalDigits_injective (String.ofList_inj.1 same)
    omega

theorem nodup_entryAddresses {path : KeyPath} : (entries : List (String × Tree)) →
    (entries.map Prod.fst).Nodup → EntriesHaveDistinctKeys entries →
    (entryAddresses path entries).Nodup
  | [], _, _ => List.nodup_nil
  | (key, value) :: rest, keys, ⟨distinct, below⟩ => by
    rw [List.map_cons, List.nodup_cons] at keys
    rw [entryAddresses, List.nodup_append]
    refine ⟨nodup_addresses value distinct, nodup_entryAddresses rest keys.2 below, ?_⟩
    intro address first _ later same
    subst same
    obtain ⟨other, known, begins⟩ := prefix_of_mem_entryAddresses rest later
    have same := child_unique (prefix_of_mem_addresses value first) begins
    exact keys.1 (same ▸ known)

end

end LayeredConfig.Tree
