import LayeredConfig.Proofs.Tree.Nodes

/-!
# Trees that differ in the order of entries

Trees that are alike hold nodes that are alike at the same addresses, and `Tree.find` leads to them along the same
paths. Between trees whose mappings hold no key twice the relation goes both ways, `Alike.symm`.
-/

namespace LayeredConfig.Tree

theorem entriesAlike_iff {entries others : List (String × Tree)} :
    EntriesAlike entries others ↔
      ∀ key value, (key, value) ∈ entries → ∃ other, others.lookup key = some other ∧ value.Alike other := by
  induction entries with
  | nil => simp [EntriesAlike]
  | cons entry rest ih =>
    obtain ⟨key, value⟩ := entry
    rw [EntriesAlike, ih]
    constructor
    · intro holds key' value' member
      rcases holds with ⟨first, below⟩
      rcases List.mem_cons.1 member with same | member
      · cases same
        exact first
      · exact below key' value' member
    · intro all
      exact ⟨all key value List.mem_cons_self, fun key' value' member =>
        all key' value' (List.mem_cons_of_mem _ member)⟩

theorem ItemsAlike.getElem? {items others : List Tree} (alike : ItemsAlike items others) {position : Nat}
    {item : Tree} (found : items[position]? = some item) :
    ∃ other, others[position]? = some other ∧ item.Alike other := by
  induction items generalizing others position with
  | nil => cases found
  | cons first rest ih =>
    cases others with
    | nil => cases alike
    | cons other others =>
      obtain ⟨same, below⟩ := alike
      cases position with
      | zero =>
        cases found
        exact ⟨other, rfl, same⟩
      | succ position => exact ih below found

theorem Alike.isContainer {tree other : Tree} (alike : tree.Alike other) :
    other.isContainer = tree.isContainer := by
  cases tree with
  | sequence items =>
    cases other with
    | sequence => rfl
    | null | bool | int | double | string | mapping => cases alike
  | mapping entries =>
    cases other with
    | mapping => rfl
    | null | bool | int | double | string | sequence => cases alike
  | null | bool | int | double | string =>
    cases alike
    rfl

mutual

theorem Alike.symm : {tree other : Tree} → tree.Alike other → tree.HasDistinctKeys →
    other.HasDistinctKeys → other.Alike tree
  | .null, _, alike, _, _ => by cases alike; rfl
  | .bool _, _, alike, _, _ => by cases alike; rfl
  | .int _, _, alike, _, _ => by cases alike; rfl
  | .double _, _, alike, _, _ => by cases alike; rfl
  | .string _, _, alike, _, _ => by cases alike; rfl
  | .sequence items, .sequence others, alike, distinct, distinct' => ItemsAlike.symm alike distinct distinct'
  | .mapping entries, .mapping others, ⟨keys, alike⟩, ⟨distinct, below⟩, ⟨distinct', below'⟩ => by
    refine ⟨fun key => (keys key).symm, entriesAlike_iff.2 fun key other member => ?_⟩
    obtain ⟨entry, known, rfl⟩ := List.mem_map.1 ((keys key).2 (List.mem_map_of_mem member))
    refine ⟨entry.2, (Entries.lookup_eq_some_iff distinct).2 known, ?_⟩
    obtain ⟨other', found, same⟩ := entriesAlike_iff.1 alike entry.1 entry.2 known
    obtain rfl : other = other' :=
      Option.some.inj (((Entries.lookup_eq_some_iff distinct').2 member).symm.trans found)
    exact EntriesAlike.symm entries known same below (entriesHaveDistinctKeys_iff.1 below' _ member)

theorem ItemsAlike.symm : {items others : List Tree} → ItemsAlike items others →
    ItemsHaveDistinctKeys items → ItemsHaveDistinctKeys others → ItemsAlike others items
  | [], _, alike, _, _ => by cases alike; rfl
  | _ :: _, _ :: _, ⟨alike, below⟩, ⟨distinct, rest⟩, ⟨distinct', rest'⟩ =>
    ⟨alike.symm distinct distinct', below.symm rest rest'⟩

theorem EntriesAlike.symm : (entries : List (String × Tree)) → {key : String} → {value other : Tree} →
    (key, value) ∈ entries → value.Alike other → EntriesHaveDistinctKeys entries → other.HasDistinctKeys →
    other.Alike value
  | (key', value') :: rest, key, value, other, member, alike, ⟨distinct, below⟩, distinct' => by
    rcases List.mem_cons.1 member with same | member
    · cases same
      exact alike.symm distinct distinct'
    · exact EntriesAlike.symm rest member alike below distinct'

end

/-! ## Nodes -/

variable {tree other : Tree}

theorem Alike.child? (alike : tree.Alike other) {key : String} {child : Tree}
    (found : tree.child? key = some child) : ∃ child', other.child? key = some child' ∧ child.Alike child' := by
  cases tree with
  | mapping entries =>
    cases other with
    | mapping others =>
      obtain ⟨front, back, rfl, -⟩ := List.lookup_eq_some_iff.1 found
      exact entriesAlike_iff.1 alike.2 key child (by simp)
    | null | bool | int | double | string | sequence => cases alike
  | null | bool | int | double | string | sequence => cases found

theorem Alike.find (alike : tree.Alike other) {path : KeyPath} {node : Tree}
    (found : tree.find path = some node) : ∃ node', other.find path = some node' ∧ node.Alike node' := by
  induction path generalizing tree other with
  | nil =>
    rw [find_nil] at found
    cases found
    exact ⟨other, find_nil other, alike⟩
  | cons key rest ih =>
    rw [find_cons] at found
    obtain ⟨child, below, inside⟩ := Option.bind_eq_some_iff.1 found
    obtain ⟨child', below', alike'⟩ := alike.child? below
    obtain ⟨node', inside', same⟩ := ih alike' inside
    refine ⟨node', ?_, same⟩
    rw [find_cons, below']
    exact inside'

theorem Alike.nodeAt (alike : tree.Alike other) {path : KeyPath} {node : Tree}
    (stands : tree.NodeAt path node) : ∃ node', other.NodeAt path node' ∧ node.Alike node' := by
  induction stands with
  | root => exact ⟨other, .root, alike⟩
  | item parent found ih =>
    obtain ⟨node, stands, alike⟩ := ih
    cases node with
    | sequence others =>
      obtain ⟨item', found', same⟩ := ItemsAlike.getElem? alike found
      exact ⟨item', stands.item found', same⟩
    | null | bool | int | double | string | mapping => cases alike
  | entry parent member ih =>
    obtain ⟨node, stands, alike⟩ := ih
    cases node with
    | mapping others =>
      obtain ⟨value', found, same⟩ := entriesAlike_iff.1 alike.2 _ _ member
      obtain ⟨front, back, rfl, -⟩ := List.lookup_eq_some_iff.1 found
      exact ⟨value', stands.entry (by simp), same⟩
    | null | bool | int | double | string | sequence => cases alike

/-! ## Changing strings -/

theorem keys_mapEntryStrings (f : KeyPath → String → String) (path : KeyPath)
    (entries : List (String × Tree)) :
    (mapEntryStrings f path entries).map Prod.fst = entries.map Prod.fst := by
  induction entries with
  | nil => rfl
  | cons entry rest ih =>
    obtain ⟨key, value⟩ := entry
    rw [mapEntryStrings, List.map_cons, List.map_cons, ih]

variable {root : Tree} {f g : KeyPath → String → String}

mutual

/-- Trees that are alike stay so when their strings are changed in the same way. -/
theorem alike_mapStrings (same : ∀ path text, root.NodeAt path (.string text) → f path text = g path text) :
    (tree : Tree) → {other : Tree} → {path : KeyPath} → root.NodeAt path tree → tree.Alike other →
    (tree.mapStrings f path).Alike (other.mapStrings g path)
  | .null, _, _, _, alike => by cases alike; rfl
  | .bool _, _, _, _, alike => by cases alike; rfl
  | .int _, _, _, _, alike => by cases alike; rfl
  | .double _, _, _, _, alike => by cases alike; rfl
  | .string text, _, path, stands, alike => by
    cases alike
    rw [mapStrings, mapStrings, same path text stands]
    rfl
  | .sequence items, .sequence others, path, stands, alike =>
    items_alike_mapStrings same items stands.items alike
  | .mapping entries, .mapping others, path, stands, ⟨keys, alike⟩ => by
    refine ⟨fun key => ?_, ?_⟩
    · rw [keys_mapEntryStrings, keys_mapEntryStrings]
      exact keys key
    · exact entries_alike_mapStrings same entries stands.entries alike

theorem items_alike_mapStrings
    (same : ∀ path text, root.NodeAt path (.string text) → f path text = g path text) :
    (items : List Tree) → {others : List Tree} → {path : KeyPath} → {start : Nat} →
    AllItems root.NodeAt path start items → ItemsAlike items others →
    ItemsAlike (mapItemStrings f path start items) (mapItemStrings g path start others)
  | [], _, _, _, _, alike => by cases alike; rfl
  | item :: rest, _ :: _, _, _, ⟨first, later⟩, ⟨alike, below⟩ =>
    ⟨alike_mapStrings same item first alike, items_alike_mapStrings same rest later below⟩

theorem entries_alike_mapStrings
    (same : ∀ path text, root.NodeAt path (.string text) → f path text = g path text) :
    (entries : List (String × Tree)) → {others : List (String × Tree)} → {path : KeyPath} →
    AllEntries root.NodeAt path entries → EntriesAlike entries others →
    EntriesAlike (mapEntryStrings f path entries) (mapEntryStrings g path others)
  | [], _, _, _, _ => trivial
  | (key, value) :: rest, others, path, ⟨first, later⟩, ⟨⟨other, found, alike⟩, below⟩ => by
    refine ⟨⟨_, ?_, alike_mapStrings same value first alike⟩, ?_⟩
    · rw [lookup_mapEntryStrings, found]
      rfl
    · exact entries_alike_mapStrings same rest later below

end

end LayeredConfig.Tree
