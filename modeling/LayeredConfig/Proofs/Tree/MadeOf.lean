import LayeredConfig.Proofs.Tree.MergeByPath
import LayeredConfig.Proofs.Tree.Reordering
import LayeredConfig.Tree.Assign

/-!
# What a tree is made of

`MadeOf scalar key` says that every scalar and every key of a tree is such, and that no mapping holds a key twice. Every
operation of the library that puts trees together keeps it: merging, assigning, replacing a node and changing strings.
-/

namespace LayeredConfig

namespace Entries

variable {κ α : Type} [DecidableEq κ]

theorem mem_put {key : κ} {value : α} {entries : List (κ × α)} {entry : κ × α}
    (member : entry ∈ put key value entries) : entry = (key, value) ∨ entry ∈ entries := by
  induction entries with
  | nil => exact Or.inl (List.mem_singleton.1 member)
  | cons first rest ih =>
    rw [put] at member
    split at member
    · exact (List.mem_cons.1 member).imp_right (List.mem_cons_of_mem _)
    · rcases List.mem_cons.1 member with same | member
      · exact Or.inr (same ▸ List.mem_cons_self)
      · exact (ih member).imp_right (List.mem_cons_of_mem _)

theorem nodup_keys_put {entries : List (κ × α)} (distinct : (entries.map Prod.fst).Nodup) (key : κ) (value : α) :
    ((put key value entries).map Prod.fst).Nodup := by
  rw [keys_put]
  split
  · exact distinct
  · next absent =>
    refine List.nodup_append.2 ⟨distinct, List.pairwise_singleton _ key, fun other member same new => ?_⟩
    rw [List.mem_singleton.1 new]
    rintro rfl
    exact absent member

theorem mem_of_lookup {key : κ} {value : α} {entries : List (κ × α)} (found : entries.lookup key = some value) :
    (key, value) ∈ entries := by
  induction entries with
  | nil => cases found
  | cons entry rest ih =>
    obtain ⟨k, v⟩ := entry
    rw [List.lookup_cons] at found
    split at found
    · next same =>
      cases found
      exact List.mem_cons.2 (Or.inl (by rw [eq_of_beq same]))
    · exact List.mem_cons_of_mem _ (ih found)

/-- Putting what is there already changes nothing. -/
theorem put_of_lookup {key : κ} {value : α} {entries : List (κ × α)} (found : entries.lookup key = some value) :
    put key value entries = entries := by
  induction entries with
  | nil => cases found
  | cons entry rest ih =>
    obtain ⟨k, v⟩ := entry
    rw [List.lookup_cons] at found
    rw [put]
    split at found
    · next same =>
      cases found
      rw [if_pos (eq_of_beq same).symm, eq_of_beq same]
    · next other => rw [if_neg fun same => beq_eq_false_iff_ne.1 other same.symm, ih found]

theorem erase_of_lookup {key : κ} {entries : List (κ × α)} (absent : entries.lookup key = none) :
    erase key entries = entries := by
  rw [lookup_eq_none_iff] at absent
  refine List.filter_eq_self.2 fun entry member => ?_
  rw [bne_iff_ne]
  rintro rfl
  exact absent (List.mem_map_of_mem member)

end Entries

namespace Tree

/-- Every scalar and every key of the tree is such, and no mapping holds a key twice. -/
inductive MadeOf (scalar : Tree → Prop) (key : String → Prop) : Tree → Prop
  | scalar {node : Tree} (leaf : node.isContainer = false) (good : scalar node) : MadeOf scalar key node
  | sequence {items : List Tree} (inner : ∀ item ∈ items, MadeOf scalar key item) :
      MadeOf scalar key (.sequence items)
  | mapping {entries : List (String × Tree)} (distinct : (entries.map Prod.fst).Nodup)
      (keys : ∀ entry ∈ entries, key entry.1) (inner : ∀ entry ∈ entries, MadeOf scalar key entry.2) :
      MadeOf scalar key (.mapping entries)

variable {scalar scalar' : Tree → Prop} {key key' : String → Prop} {tree lower upper value : Tree}
  {items : List Tree} {entries : List (String × Tree)}

theorem madeOf_sequence_iff : MadeOf scalar key (.sequence items) ↔ ∀ item ∈ items, MadeOf scalar key item := by
  refine ⟨fun madeOf => ?_, .sequence⟩
  cases madeOf with
  | scalar leaf => cases leaf
  | sequence inner => exact inner

theorem madeOf_mapping_iff :
    MadeOf scalar key (.mapping entries)
      ↔ (entries.map Prod.fst).Nodup ∧ (∀ entry ∈ entries, key entry.1)
        ∧ ∀ entry ∈ entries, MadeOf scalar key entry.2 := by
  refine ⟨fun madeOf => ?_, fun ⟨distinct, keys, inner⟩ => .mapping distinct keys inner⟩
  cases madeOf with
  | scalar leaf => cases leaf
  | mapping distinct keys inner => exact ⟨distinct, keys, inner⟩

theorem madeOf_scalar_iff (leaf : tree.isContainer = false) : MadeOf scalar key tree ↔ scalar tree := by
  refine ⟨fun madeOf => ?_, .scalar leaf⟩
  cases madeOf with
  | scalar _ good => exact good
  | sequence | mapping => cases leaf

theorem MadeOf.imp (scalars : ∀ node, node.isContainer = false → scalar node → scalar' node)
    (keys : ∀ name, key name → key' name) (madeOf : MadeOf scalar key tree) : MadeOf scalar' key' tree := by
  induction madeOf with
  | scalar leaf good => exact .scalar leaf (scalars _ leaf good)
  | sequence _ ih => exact .sequence ih
  | mapping distinct names _ ih => exact .mapping distinct (fun entry member => keys _ (names entry member)) ih

theorem MadeOf.and (first : MadeOf scalar key tree) (second : MadeOf scalar' key' tree) :
    MadeOf (fun node => scalar node ∧ scalar' node) (fun name => key name ∧ key' name) tree := by
  induction first with
  | scalar leaf good => exact .scalar leaf ⟨good, (madeOf_scalar_iff leaf).1 second⟩
  | sequence _ ih =>
    exact .sequence fun item member => ih item member (madeOf_sequence_iff.1 second item member)
  | mapping distinct names _ ih =>
    obtain ⟨-, names', inner'⟩ := madeOf_mapping_iff.1 second
    exact .mapping distinct (fun entry member => ⟨names entry member, names' entry member⟩)
      fun entry member => ih entry member (inner' entry member)

theorem MadeOf.hasDistinctKeys (madeOf : MadeOf scalar key tree) : tree.HasDistinctKeys := by
  induction madeOf with
  | @scalar node leaf =>
    cases node with
    | sequence | mapping => cases leaf
    | null | bool | int | double | string => exact trivial
  | sequence _ ih => exact itemsHaveDistinctKeys_iff.2 ih
  | mapping distinct _ _ ih => exact ⟨distinct, entriesHaveDistinctKeys_iff.2 ih⟩

mutual

theorem madeOf_of_hasDistinctKeys : (tree : Tree) → tree.HasDistinctKeys → tree.MadeOf (fun _ => True) fun _ => True
  | .null, _ | .bool _, _ | .int _, _ | .double _, _ | .string _, _ => .scalar rfl trivial
  | .sequence items, distinct => .sequence (items_madeOf_of_hasDistinctKeys items distinct)
  | .mapping entries, ⟨distinct, below⟩ =>
    .mapping distinct (fun _ _ => trivial) (entries_madeOf_of_hasDistinctKeys entries below)

theorem items_madeOf_of_hasDistinctKeys : (items : List Tree) → ItemsHaveDistinctKeys items →
    ∀ item ∈ items, item.MadeOf (fun _ => True) fun _ => True
  | [], _ => nofun
  | item :: rest, ⟨first, below⟩ =>
    List.forall_mem_cons.2 ⟨madeOf_of_hasDistinctKeys item first, items_madeOf_of_hasDistinctKeys rest below⟩

theorem entries_madeOf_of_hasDistinctKeys : (entries : List (String × Tree)) → EntriesHaveDistinctKeys entries →
    ∀ entry ∈ entries, entry.2.MadeOf (fun _ => True) fun _ => True
  | [], _ => nofun
  | (_, value) :: rest, ⟨first, below⟩ =>
    List.forall_mem_cons.2 ⟨madeOf_of_hasDistinctKeys value first, entries_madeOf_of_hasDistinctKeys rest below⟩

end

/-- A string of a tree. -/
def HasString (tree : Tree) (text : String) : Prop :=
  ∃ path, tree.NodeAt path (.string text)

/-- A key of a mapping in a tree. -/
def HasKey (tree : Tree) (name : String) : Prop :=
  ∃ path entries, tree.NodeAt path (.mapping entries) ∧ name ∈ entries.map Prod.fst

theorem MadeOf.nodeAt {root node : Tree} {path : KeyPath} (madeOf : MadeOf scalar key root)
    (stands : root.NodeAt path node) : MadeOf scalar key node := by
  induction stands with
  | root => exact madeOf
  | item _ found ih => exact madeOf_sequence_iff.1 ih _ (List.mem_of_getElem? found)
  | entry _ member ih => exact (madeOf_mapping_iff.1 ih).2.2 _ member

theorem MadeOf.of_texts {root : Tree} {path : KeyPath} {string name : String → Prop}
    (strings : ∀ text, root.HasString text → string text) (names : ∀ text, root.HasKey text → name text)
    (stands : root.NodeAt path tree) (madeOf : MadeOf scalar key tree) :
    MadeOf (fun node => ∀ text, node = .string text → string text) name tree := by
  induction madeOf generalizing path with
  | scalar leaf =>
    refine .scalar leaf fun text same => strings text ⟨path, ?_⟩
    rwa [← same]
  | sequence _ ih =>
    refine .sequence fun item member => ?_
    obtain ⟨position, found⟩ := List.mem_iff_getElem?.1 member
    exact ih item member (.item stands found)
  | mapping distinct _ _ ih =>
    refine .mapping distinct (fun entry member => names entry.1 ?_) fun entry member =>
      ih entry member (.entry stands member)
    exact ⟨path, _, stands, List.mem_map_of_mem member⟩

/-- What the texts of a tree are made of can be said of its strings and keys one by one. -/
theorem madeOf_texts_iff {string name : String → Prop} (madeOf : MadeOf scalar key tree) :
    MadeOf (fun node => ∀ text, node = .string text → string text) name tree
      ↔ (∀ text, tree.HasString text → string text) ∧ ∀ text, tree.HasKey text → name text := by
  constructor
  · refine fun texts => ⟨fun text ⟨path, stands⟩ => ?_, fun name ⟨path, entries, stands, named⟩ => ?_⟩
    · exact (madeOf_scalar_iff rfl).1 (texts.nodeAt stands) text rfl
    · obtain ⟨entry, member, rfl⟩ := List.mem_map.1 named
      exact (madeOf_mapping_iff.1 (texts.nodeAt stands)).2.1 entry member
  · exact fun ⟨strings, names⟩ => madeOf.of_texts strings names .root

mutual

/-- Decides what a tree is made of. -/
def decideMadeOf [DecidablePred scalar] [DecidablePred key] : (tree : Tree) → Decidable (MadeOf scalar key tree)
  | .sequence items =>
    have : Decidable (∀ item ∈ items, MadeOf scalar key item) := decideItemsMadeOf items
    decidable_of_iff (∀ item ∈ items, MadeOf scalar key item) madeOf_sequence_iff.symm
  | .mapping entries =>
    have : Decidable (∀ entry ∈ entries, MadeOf scalar key entry.2) := decideEntriesMadeOf entries
    decidable_of_iff ((entries.map Prod.fst).Nodup ∧ (∀ entry ∈ entries, key entry.1)
      ∧ ∀ entry ∈ entries, MadeOf scalar key entry.2) madeOf_mapping_iff.symm
  | .null => decidable_of_iff (scalar .null) (madeOf_scalar_iff rfl).symm
  | .bool value => decidable_of_iff (scalar (.bool value)) (madeOf_scalar_iff rfl).symm
  | .int value => decidable_of_iff (scalar (.int value)) (madeOf_scalar_iff rfl).symm
  | .double value => decidable_of_iff (scalar (.double value)) (madeOf_scalar_iff rfl).symm
  | .string text => decidable_of_iff (scalar (.string text)) (madeOf_scalar_iff rfl).symm

/-- Decides what the items of a sequence are made of. -/
def decideItemsMadeOf [DecidablePred scalar] [DecidablePred key] :
    (items : List Tree) → Decidable (∀ item ∈ items, MadeOf scalar key item)
  | [] => isTrue nofun
  | item :: rest =>
    have : Decidable (MadeOf scalar key item) := decideMadeOf item
    have : Decidable (∀ item ∈ rest, MadeOf scalar key item) := decideItemsMadeOf rest
    decidable_of_iff (MadeOf scalar key item ∧ ∀ item ∈ rest, MadeOf scalar key item) List.forall_mem_cons.symm

/-- Decides what the values of a mapping are made of. -/
def decideEntriesMadeOf [DecidablePred scalar] [DecidablePred key] :
    (entries : List (String × Tree)) → Decidable (∀ entry ∈ entries, MadeOf scalar key entry.2)
  | [] => isTrue nofun
  | (_, value) :: rest =>
    have : Decidable (MadeOf scalar key value) := decideMadeOf value
    have : Decidable (∀ entry ∈ rest, MadeOf scalar key entry.2) := decideEntriesMadeOf rest
    decidable_of_iff (MadeOf scalar key value ∧ ∀ entry ∈ rest, MadeOf scalar key entry.2)
      ⟨fun ⟨first, others⟩ => List.forall_mem_cons.2 ⟨first, others⟩, fun all => List.forall_mem_cons.1 all⟩

end

instance [DecidablePred scalar] [DecidablePred key] (tree : Tree) : Decidable (MadeOf scalar key tree) :=
  decideMadeOf tree

/-- Decides whether a node is such if it is a string. -/
instance (string : String → Prop) [DecidablePred string] (node : Tree) :
    Decidable (∀ text, node = .string text → string text) :=
  match node with
  | .string text =>
    decidable_of_iff (string text) ⟨fun good _ same => Tree.string.inj same ▸ good, fun all => all text rfl⟩
  | .null | .bool _ | .int _ | .double _ | .sequence _ | .mapping _ => isTrue nofun

/-! ## Putting trees together -/

theorem madeOf_empty : MadeOf scalar key (.mapping []) :=
  .mapping List.nodup_nil nofun nofun

theorem MadeOf.lookup (madeOf : MadeOf scalar key (.mapping entries)) {name : String}
    (found : entries.lookup name = some value) : key name ∧ MadeOf scalar key value := by
  obtain ⟨-, keys, inner⟩ := madeOf_mapping_iff.1 madeOf
  have member := Entries.mem_of_lookup found
  exact ⟨keys _ member, inner _ member⟩

theorem MadeOf.find {path : KeyPath} (madeOf : MadeOf scalar key tree) (found : tree.find path = some value) :
    MadeOf scalar key value := by
  induction path generalizing tree with
  | nil =>
    rw [find_nil] at found
    cases found
    exact madeOf
  | cons name rest ih =>
    rw [find_cons] at found
    obtain ⟨child, below, inside⟩ := Option.bind_eq_some_iff.1 found
    cases tree with
    | mapping entries => exact ih (madeOf.lookup below).2 inside
    | null | bool | int | double | string | sequence => cases below

theorem MadeOf.put {name : String} (madeOf : MadeOf scalar key (.mapping entries)) (named : key name)
    (inner : MadeOf scalar key value) : MadeOf scalar key (.mapping (Entries.put name value entries)) := by
  obtain ⟨distinct, keys, others⟩ := madeOf_mapping_iff.1 madeOf
  refine .mapping (Entries.nodup_keys_put distinct name value) (fun entry member => ?_) fun entry member => ?_
  all_goals rcases Entries.mem_put member with rfl | member
  · exact named
  · exact keys entry member
  · exact inner
  · exact others entry member

theorem MadeOf.erase (madeOf : MadeOf scalar key (.mapping entries)) (name : String) :
    MadeOf scalar key (.mapping (Entries.erase name entries)) := by
  obtain ⟨distinct, keys, inner⟩ := madeOf_mapping_iff.1 madeOf
  have sublist : (Entries.erase name entries).Sublist entries := List.filter_sublist
  exact .mapping (distinct.sublist (sublist.map Prod.fst)) (fun entry member => keys entry (sublist.subset member))
    fun entry member => inner entry (sublist.subset member)

/-- Laying entries over a mapping, if their values may be laid over other trees. -/
theorem madeOf_mergeEntries {lowers uppers : List (String × Tree)} (below : MadeOf scalar key (.mapping lowers))
    (keys : ∀ entry ∈ uppers, key entry.1) (inner : ∀ entry ∈ uppers, MadeOf scalar key entry.2)
    (merges : ∀ entry ∈ uppers, ∀ {lower}, MadeOf scalar key lower → MadeOf scalar key (lower.merge entry.2)) :
    MadeOf scalar key (.mapping (mergeEntries lowers uppers)) := by
  induction uppers generalizing lowers with
  | nil => exact below
  | cons entry rest ih =>
    obtain ⟨name, upper⟩ := entry
    rw [List.forall_mem_cons] at keys inner
    rw [mergeEntries_cons]
    refine ih (below.put keys.1 ?_) keys.2 inner.2 fun entry member => merges entry (List.mem_cons_of_mem _ member)
    cases found : lowers.lookup name with
    | none => exact inner.1
    | some lower => exact merges (name, upper) List.mem_cons_self (below.lookup found).2

theorem MadeOf.merge (above : MadeOf scalar key upper) (below : MadeOf scalar key lower) :
    MadeOf scalar key (lower.merge upper) := by
  induction above generalizing lower with
  | @scalar node leaf good =>
    cases node with
    | sequence | mapping => cases leaf
    | null | bool | int | double | string => exact .scalar leaf good
  | sequence inner => exact .sequence inner
  | mapping distinct keys inner ih =>
    cases lower with
    | mapping lowers => exact madeOf_mergeEntries below keys inner fun entry member _ below => ih entry member below
    | null | bool | int | double | string | sequence => exact .mapping distinct keys inner

theorem MadeOf.modify {f : Tree → Tree} (changes : ∀ node, MadeOf scalar key node → MadeOf scalar key (f node))
    (madeOf : MadeOf scalar key tree) (path : KeyPath) : MadeOf scalar key (tree.modify f path) := by
  induction path generalizing tree with
  | nil => exact changes tree madeOf
  | cons name rest ih =>
    cases tree with
    | mapping entries =>
      rw [Tree.modify]
      cases found : entries.lookup name with
      | none => exact madeOf
      | some child =>
        obtain ⟨named, inner⟩ := madeOf.lookup found
        exact madeOf.put named (ih inner)
    | null | bool | int | double | string | sequence => exact madeOf

theorem madeOf_assignEntries {add : Bool} {path : KeyPath} (inner : MadeOf scalar key value)
    (names : ∀ name ∈ path, key name) (madeOf : MadeOf scalar key (.mapping entries)) :
    MadeOf scalar key (.mapping (assignEntries value add path entries).1) := by
  fun_induction assignEntries value add path entries with
  | case1 | case2 | case3 | case6 | case8 => exact madeOf
  | case4 => exact madeOf.put (names _ List.mem_cons_self) inner
  | case5 name next rest entries _ _ below failure assigned ih =>
    rw [List.forall_mem_cons] at names
    rw [assigned] at ih
    exact madeOf.put names.1 (ih names.2 madeOf_empty)
  | case7 name next rest entries children found below failure assigned ih =>
    rw [List.forall_mem_cons] at names
    rw [assigned] at ih
    exact madeOf.put names.1 (ih names.2 (madeOf.lookup found).2)

theorem MadeOf.assign {path : KeyPath} (madeOf : MadeOf scalar key tree) (inner : MadeOf scalar key value)
    (names : ∀ name ∈ path, key name) (add : Bool) : MadeOf scalar key (tree.assign path value add).tree := by
  unfold Tree.assign
  split
  · exact madeOf
  · split
    · exact madeOf_assignEntries inner names madeOf_empty
    · exact madeOf_assignEntries inner names madeOf
    · exact madeOf

/-! ## Changing strings -/

mutual

theorem MadeOf.mapStrings {f : KeyPath → String → String}
    (strings : ∀ path text, scalar (.string text) → scalar (.string (f path text))) :
    {path : KeyPath} → {tree : Tree} → MadeOf scalar key tree → MadeOf scalar key (tree.mapStrings f path)
  | _, .null, madeOf => madeOf
  | _, .bool _, madeOf => madeOf
  | _, .int _, madeOf => madeOf
  | _, .double _, madeOf => madeOf
  | path, .string text, madeOf => .scalar rfl (strings path text ((madeOf_scalar_iff rfl).1 madeOf))
  | _, .sequence _, madeOf => .sequence (madeOf_mapItemStrings strings (madeOf_sequence_iff.1 madeOf))
  | path, .mapping entries, madeOf => by
    obtain ⟨distinct, keys, inner⟩ := madeOf_mapping_iff.1 madeOf
    have same := keys_mapEntryStrings f path entries
    refine .mapping (by rwa [same]) (fun entry member => ?_) (madeOf_mapEntryStrings strings inner)
    have known : entry.1 ∈ (mapEntryStrings f path entries).map Prod.fst := List.mem_map_of_mem member
    rw [same] at known
    obtain ⟨old, member', named⟩ := List.mem_map.1 known
    exact named ▸ keys old member'

theorem madeOf_mapItemStrings {f : KeyPath → String → String}
    (strings : ∀ path text, scalar (.string text) → scalar (.string (f path text))) :
    {path : KeyPath} → {position : Nat} → {items : List Tree} → (∀ item ∈ items, MadeOf scalar key item) →
    ∀ item ∈ mapItemStrings f path position items, MadeOf scalar key item
  | _, _, [], _ => nofun
  | _, _, _ :: _, inner => by
    rw [List.forall_mem_cons] at inner
    exact List.forall_mem_cons.2 ⟨inner.1.mapStrings strings, madeOf_mapItemStrings strings inner.2⟩

theorem madeOf_mapEntryStrings {f : KeyPath → String → String}
    (strings : ∀ path text, scalar (.string text) → scalar (.string (f path text))) :
    {path : KeyPath} → {entries : List (String × Tree)} → (∀ entry ∈ entries, MadeOf scalar key entry.2) →
    ∀ entry ∈ mapEntryStrings f path entries, MadeOf scalar key entry.2
  | _, [], _ => nofun
  | _, _ :: _, inner => by
    rw [List.forall_mem_cons] at inner
    exact List.forall_mem_cons.2 ⟨inner.1.mapStrings strings, madeOf_mapEntryStrings strings inner.2⟩

end

end Tree

end LayeredConfig
