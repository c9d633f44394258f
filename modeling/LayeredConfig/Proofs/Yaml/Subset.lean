import LayeredConfig.Proofs.Tree.MadeOf
import LayeredConfig.Proofs.Yaml.Failures
import LayeredConfig.Proofs.Yaml.Linearised
import LayeredConfig.Tree.Equality
import Mathlib.Data.List.Basic
import Mathlib.Data.List.Induction

/-!
# The documents that are read

A stream of events is read just when it holds one document at most and every node of it fits: no alias, no anchor, only keys
that are scalars read as strings, and no numeral that is too long (`Node.Fits`). The tree is then the one that the node
stands for, `Node.tree`, where a repeated key has its first place and its last value. Any other stream fails for a second
document or for a node that does not fit (`Node.Breaks`), and for nothing else: `documents_read`.
-/

namespace LayeredConfig

namespace Entries

variable {κ α : Type} [DecidableEq κ]

/-- The pairs with each key once: in its first place, with its last value. -/
def lasting (pairs : List (κ × α)) : List (κ × α) :=
  (pairs.map Prod.fst).eraseDups.filterMap fun key => (pairs.reverse.lookup key).map (Prod.mk key)

theorem ofPairs_concat (pairs : List (κ × α)) (pair : κ × α) :
    ofPairs (pairs ++ [pair]) = put pair.1 pair.2 (ofPairs pairs) := by
  rw [ofPairs, List.foldl_append]
  rfl

theorem keys_ofPairs (pairs : List (κ × α)) : (ofPairs pairs).map Prod.fst = (pairs.map Prod.fst).eraseDups := by
  induction pairs using List.reverseRecOn with
  | nil => rfl
  | append_singleton pairs pair ih =>
    rw [ofPairs_concat, keys_put, ih, List.map_append, List.eraseDups_append, List.map_singleton]
    by_cases known : pair.1 ∈ pairs.map Prod.fst
    · have none : [pair.1].removeAll (pairs.map Prod.fst) = [] := by simp [List.removeAll, known]
      rw [if_pos (List.mem_eraseDups.2 known), none, List.eraseDups_nil, List.append_nil]
    · have same : [pair.1].removeAll (pairs.map Prod.fst) = [pair.1] := by simp [List.removeAll, known]
      rw [if_neg (mt List.mem_eraseDups.1 known), same]
      rfl

theorem nodup_keys_ofPairs (pairs : List (κ × α)) : ((ofPairs pairs).map Prod.fst).Nodup := by
  induction pairs using List.reverseRecOn with
  | nil => exact List.nodup_nil
  | append_singleton pairs pair ih =>
    rw [ofPairs_concat]
    exact nodup_keys_put ih pair.1 pair.2

theorem lookup_ofPairs (pairs : List (κ × α)) (key : κ) : (ofPairs pairs).lookup key = pairs.reverse.lookup key := by
  induction pairs using List.reverseRecOn with
  | nil => rfl
  | append_singleton pairs pair ih =>
    rw [ofPairs_concat, lookup_put, List.reverse_append, List.reverse_singleton, List.singleton_append, List.lookup_cons, ih]
    by_cases same : key = pair.1
    · rw [if_pos same, beq_iff_eq.2 same]
    · rw [if_neg same, beq_eq_false_iff_ne.2 same]

/-- Entries without a repeated key are their keys, each with what it looks up. -/
theorem eq_filterMap_lookup {entries : List (κ × α)} (distinct : (entries.map Prod.fst).Nodup) :
    entries = (entries.map Prod.fst).filterMap fun key => (entries.lookup key).map (Prod.mk key) := by
  rw [List.filterMap_map]
  refine List.filterMap_some.symm.trans (List.filterMap_congr fun entry member => ?_)
  rw [Function.comp_apply, (lookup_eq_some_iff distinct).2 member]
  rfl

/-- Entering pairs one after another leaves each key in its first place with its last value. -/
theorem ofPairs_eq_lasting (pairs : List (κ × α)) : ofPairs pairs = lasting pairs := by
  rw [eq_filterMap_lookup (nodup_keys_ofPairs pairs), keys_ofPairs, lasting]
  simp only [lookup_ofPairs]

end Entries

namespace Yaml

namespace Node

/-! ## What a node stands for -/

mutual

/-- The node and all nodes inside, keys among them. -/
def nodes : Node → List Node
  | .sequence properties items => .sequence properties items :: itemNodes items
  | .mapping properties entries => .mapping properties entries :: entryNodes entries
  | node => [node]

/-- The nodes of items. -/
def itemNodes : List Node → List Node
  | [] => []
  | item :: rest => item.nodes ++ itemNodes rest

/-- The nodes of entries. -/
def entryNodes : List (Node × Node) → List Node
  | [] => []
  | (key, value) :: rest => key.nodes ++ (value.nodes ++ entryNodes rest)

end

/-- The anchor of a node. -/
def anchor : Node → Option (List Char)
  | .aliased _ => none
  | .scalar properties _ _ | .sequence properties _ | .mapping properties _ => properties.anchor

/-- The text of a scalar. -/
def text : Node → String
  | .scalar _ text _ => String.ofList text
  | _ => ""

mutual

/-- The tree that a node stands for, if it fits. -/
def tree : Node → Tree
  | .aliased _ => .null
  | .scalar properties text style =>
    match Walk.scalarNode properties text style with
    | .ok tree => tree
    | .error _ => .null
  | .sequence _ items => .sequence (itemTrees items)
  | .mapping _ entries => .mapping (Entries.lasting (entryPairs entries))

/-- The trees of items. -/
def itemTrees : List Node → List Tree
  | [] => []
  | item :: rest => item.tree :: itemTrees rest

/-- The keys and trees of entries, as they are written. -/
def entryPairs : List (Node × Node) → List (String × Tree)
  | [] => []
  | (key, value) :: rest => (key.text, value.tree) :: entryPairs rest

end

/-! ## What a node must be -/

/-- A scalar that is read as a string: in quotes or a block scalar, tagged as text, or a plain one that is typed as a string. -/
inductive IsString : Node → Prop
  | styled {properties : Properties} {text : List Char} {style : Style} (notPlain : style ≠ .plain) :
      IsString (.scalar properties text style)
  | tagged {properties : Properties} {text : List Char} {style : Style} (tagged : properties.tag = some textTag) :
      IsString (.scalar properties text style)
  | typed {properties : Properties} {text : List Char} {style : Style}
      (typed : Scalar.read text = .ok (.string (String.ofList text))) : IsString (.scalar properties text style)

/-- A plain scalar, not tagged as text, that is an integer numeral with more digits than are read. -/
def IsOverlong : Node → Prop
  | .scalar properties text style => style = .plain ∧ properties.tag ≠ some textTag ∧ Scalar.IsOverlong text
  | _ => False

/-- What the reader asks of a node. -/
structure Fits (node : Node) : Prop where
  noAlias : ∀ name, node ≠ .aliased name
  noAnchor : node.anchor = none
  stringKeys : ∀ properties entries, node = .mapping properties entries → ∀ entry ∈ entries, entry.1.IsString
  notOverlong : ¬node.IsOverlong

/-- Why a node does not fit, and the failure. -/
inductive Breaks (source : String) : Node → Error → Prop
  | aliased (name : List Char) : Breaks source (.aliased name) (.aliasUsed source)
  | anchored {node : Node} {name : List Char} (named : node.anchor = some name) :
      Breaks source node (.anchorUsed (String.ofList name) source)
  | keyed {properties : Properties} {entries : List (Node × Node)} {entry : Node × Node} (member : entry ∈ entries)
      (other : ¬entry.1.IsString) : Breaks source (.mapping properties entries) (.keyNotString entry.1.tree.kind source)
  | overlong {node : Node} (long : node.IsOverlong) : Breaks source node .numeralTooLong

/-- The node fits, and so do all nodes inside. -/
def IsSupported (node : Node) : Prop :=
  ∀ inner ∈ node.nodes, inner.Fits

/-- The node or one inside does not fit, for this failure. -/
def Refused (source : String) (node : Node) (error : Error) : Prop :=
  ∃ inner ∈ node.nodes, inner.Breaks source error

variable {source : String} {node item inner key value : Node} {items : List Node} {entries : List (Node × Node)}
  {properties : Properties} {error : Error}

theorem Breaks.not_fits (breaks : node.Breaks source error) : ¬node.Fits := by
  intro fits
  cases breaks with
  | aliased name => exact fits.noAlias name rfl
  | anchored named => cases fits.noAnchor.symm.trans named
  | keyed member other => exact other (fits.stringKeys _ _ rfl _ member)
  | overlong long => exact fits.notOverlong long

theorem Refused.not_isSupported (refused : node.Refused source error) : ¬node.IsSupported := by
  obtain ⟨inner, member, breaks⟩ := refused
  exact fun supported => breaks.not_fits (supported inner member)

/-! ## Nodes inside -/

theorem self_mem_nodes (node : Node) : node ∈ node.nodes := by
  cases node <;> exact List.mem_cons_self

theorem itemNodes_eq_flatMap (items : List Node) : itemNodes items = items.flatMap nodes := by
  induction items with
  | nil => rfl
  | cons item rest ih => rw [itemNodes, List.flatMap_cons, ih]

theorem entryNodes_eq_flatMap (entries : List (Node × Node)) :
    entryNodes entries = entries.flatMap fun entry => entry.1.nodes ++ entry.2.nodes := by
  induction entries with
  | nil => rfl
  | cons entry rest ih => rw [entryNodes, List.flatMap_cons, ih, List.append_assoc]

theorem mem_nodes_sequence_iff :
    inner ∈ (Node.sequence properties items).nodes
      ↔ inner = .sequence properties items ∨ ∃ item ∈ items, inner ∈ item.nodes := by
  rw [nodes, itemNodes_eq_flatMap, List.mem_cons, List.mem_flatMap]

theorem mem_nodes_mapping_iff :
    inner ∈ (Node.mapping properties entries).nodes
      ↔ inner = .mapping properties entries ∨ ∃ entry ∈ entries, inner ∈ entry.1.nodes ∨ inner ∈ entry.2.nodes := by
  rw [nodes, entryNodes_eq_flatMap, List.mem_cons, List.mem_flatMap]
  simp only [List.mem_append]

theorem isSupported_scalar {text : List Char} {style : Style} (unanchored : properties.anchor = none)
    (short : ¬(Node.scalar properties text style).IsOverlong) : (Node.scalar properties text style).IsSupported := by
  intro inner member
  cases List.mem_singleton.1 member
  exact ⟨nofun, unanchored, nofun, short⟩

theorem isSupported_sequence (unanchored : properties.anchor = none) (all : ∀ item ∈ items, item.IsSupported) :
    (Node.sequence properties items).IsSupported := by
  intro inner member
  rcases mem_nodes_sequence_iff.1 member with rfl | ⟨item, member, below⟩
  · exact ⟨nofun, unanchored, nofun, id⟩
  · exact all item member inner below

theorem isSupported_mapping (unanchored : properties.anchor = none)
    (all : ∀ entry ∈ entries, entry.1.IsString ∧ entry.1.IsSupported ∧ entry.2.IsSupported) :
    (Node.mapping properties entries).IsSupported := by
  intro inner member
  rcases mem_nodes_mapping_iff.1 member with rfl | ⟨entry, member, below | below⟩
  · refine ⟨nofun, unanchored, fun _ _ same entry member => ?_, id⟩
    cases same
    exact (all entry member).1
  · exact (all entry member).2.1 inner below
  · exact (all entry member).2.2 inner below

theorem Refused.of_item (member : item ∈ items) (refused : item.Refused source error) :
    (Node.sequence properties items).Refused source error := by
  obtain ⟨inner, below, breaks⟩ := refused
  exact ⟨inner, mem_nodes_sequence_iff.2 (.inr ⟨item, member, below⟩), breaks⟩

/-- An entry is refused for its key, for the kind of its key, or for its value. -/
inductive EntryRefused (source : String) (entry : Node × Node) (error : Error) : Prop
  | key (refused : entry.1.Refused source error) : EntryRefused source entry error
  | kind (other : ¬entry.1.IsString) (same : error = .keyNotString entry.1.tree.kind source) : EntryRefused source entry error
  | value (refused : entry.2.Refused source error) : EntryRefused source entry error

theorem Refused.of_entry {entry : Node × Node} (member : entry ∈ entries) (refused : EntryRefused source entry error) :
    (Node.mapping properties entries).Refused source error := by
  cases refused with
  | key refused =>
    obtain ⟨inner, below, breaks⟩ := refused
    exact ⟨inner, mem_nodes_mapping_iff.2 (.inr ⟨entry, member, .inl below⟩), breaks⟩
  | kind other same => exact ⟨_, self_mem_nodes _, same ▸ .keyed member other⟩
  | value refused =>
    obtain ⟨inner, below, breaks⟩ := refused
    exact ⟨inner, mem_nodes_mapping_iff.2 (.inr ⟨entry, member, .inr below⟩), breaks⟩

/-! ## Reading a node -/

open Outcome (Meets)

theorem meets_refuseAnchor (node : Node) (same : node.anchor = properties.anchor) :
    Meets (fun _ => properties.anchor = none) (node.Refused source) (Walk.refuseAnchor source properties) := by
  unfold Walk.refuseAnchor
  split
  · next anchored => exact ⟨node, self_mem_nodes node, .anchored (same.trans anchored)⟩
  · next unanchored => exact unanchored

/-- A scalar is a string as it stands, or it is typed. -/
theorem scalarNode_cases (properties : Properties) (text : List Char) (style : Style) :
    (style ≠ .plain ∨ properties.tag = some textTag)
        ∧ Walk.scalarNode properties text style = .ok (.string (String.ofList text))
      ∨ style = .plain ∧ properties.tag ≠ some textTag
        ∧ Walk.scalarNode properties text style = Scalar.read text := by
  unfold Walk.scalarNode
  split
  · next string =>
    rw [Bool.or_eq_true, bne_iff_ne, beq_iff_eq] at string
    exact .inl ⟨string, rfl⟩
  · next plain =>
    rw [Bool.or_eq_true, bne_iff_ne, beq_iff_eq, not_or, not_not] at plain
    exact .inr ⟨plain.1, plain.2, rfl⟩

theorem meets_scalarNode (properties : Properties) (text : List Char) (style : Style) :
    Meets (fun tree => ¬(Node.scalar properties text style).IsOverlong ∧ tree = (Node.scalar properties text style).tree)
      (fun error => (Node.scalar properties text style).IsOverlong ∧ error = .numeralTooLong)
      (Walk.scalarNode properties text style) := by
  rw [tree]
  rcases scalarNode_cases properties text style with ⟨string, typed⟩ | ⟨plain, untagged, typed⟩
  · rw [typed]
    refine ⟨?_, rfl⟩
    rintro ⟨plain, untagged, -⟩
    exact string.elim (absurd plain) untagged
  · rw [typed]
    cases reads : Scalar.read text with
    | ok tree =>
      refine ⟨?_, rfl⟩
      rintro ⟨-, -, overlong⟩
      cases reads.symm.trans (Scalar.read_of_isOverlong overlong)
    | error error =>
      obtain ⟨rfl, overlong⟩ := Scalar.eq_of_read_eq_error reads
      exact ⟨⟨plain, untagged, overlong⟩, rfl⟩

/-- A tree is taken as a key just where its node is read as a string, and the key is then the text of the node. -/
theorem meets_keyOf (supported : key.IsSupported) :
    Meets (fun name => key.IsString ∧ name = key.text)
      (fun error => ¬key.IsString ∧ error = .keyNotString key.tree.kind source) (keyOf source key.tree) := by
  have fits := supported key (self_mem_nodes key)
  cases key with
  | aliased name => exact absurd rfl (fits.noAlias name)
  | sequence properties items => exact ⟨nofun, rfl⟩
  | mapping properties entries => exact ⟨nofun, rfl⟩
  | scalar properties text style =>
    rw [tree]
    rcases scalarNode_cases properties text style with ⟨string, typed⟩ | ⟨plain, untagged, typed⟩
    · rw [typed]
      exact ⟨string.elim .styled .tagged, rfl⟩
    · obtain ⟨tree, reads⟩ := Scalar.exists_read fun overlong => fits.notOverlong ⟨plain, untagged, overlong⟩
      rw [typed, reads]
      cases tree with
      | string name =>
        have same := Scalar.read_eq_of_kind reads rfl
        exact ⟨.typed (same ▸ reads), Tree.string.inj same⟩
      | null | bool | int | double | sequence | mapping =>
        refine ⟨fun string => ?_, rfl⟩
        cases string with
        | styled notPlain => exact notPlain plain
        | tagged tagged => exact untagged tagged
        | typed typed => cases reads.symm.trans typed

theorem meets_key (reads : Meets (fun tree => key.IsSupported ∧ tree = key.tree) (key.Refused source) (key.read source)) :
    Meets (fun name => key.IsString ∧ key.IsSupported ∧ name = key.text) (EntryRefused source (key, value))
      (key.read source >>= keyOf source) := by
  refine (reads.imp (fun _ => id) fun error refused => .key refused).bind ?_
  rintro tree ⟨supported, rfl⟩
  refine (meets_keyOf supported).imp ?_ ?_
  · rintro name ⟨string, same⟩
    exact ⟨string, supported, same⟩
  · rintro error ⟨other, same⟩
    exact .kind other same

mutual

/-- Reading a node gives the tree that it stands for, or fails for a node that does not fit. -/
theorem meets_read : (node : Node) →
    Meets (fun tree => node.IsSupported ∧ tree = node.tree) (node.Refused source) (node.read source)
  | .aliased name => ⟨_, self_mem_nodes _, .aliased name⟩
  | .scalar properties text style => by
    rw [read]
    refine (meets_refuseAnchor (.scalar properties text style) rfl).bind fun _ unanchored => ?_
    refine (meets_scalarNode properties text style).imp ?_ ?_
    · rintro tree ⟨short, same⟩
      exact ⟨isSupported_scalar unanchored short, same⟩
    · rintro error ⟨overlong, rfl⟩
      exact ⟨_, self_mem_nodes _, .overlong overlong⟩
  | .sequence properties items => by
    rw [read]
    refine (meets_refuseAnchor (.sequence properties items) rfl).bind fun _ unanchored => ?_
    refine ((meets_readItems items).imp (fun _ => id) ?_).bind ?_
    · rintro error ⟨item, member, refused⟩
      exact refused.of_item member
    · rintro trees ⟨all, rfl⟩
      exact ⟨isSupported_sequence unanchored all, rfl⟩
  | .mapping properties entries => by
    rw [read]
    refine (meets_refuseAnchor (.mapping properties entries) rfl).bind fun _ unanchored => ?_
    refine ((meets_readEntries entries).imp (fun _ => id) ?_).bind ?_
    · rintro error ⟨entry, member, refused⟩
      exact .of_entry member refused
    · rintro pairs ⟨all, rfl⟩
      exact ⟨isSupported_mapping unanchored all, congrArg Tree.mapping (Entries.ofPairs_eq_lasting _)⟩

theorem meets_readItems : (items : List Node) →
    Meets (fun trees => (∀ item ∈ items, item.IsSupported) ∧ trees = itemTrees items)
      (fun error => ∃ item ∈ items, item.Refused source error) (readItems source items)
  | [] => ⟨List.forall_mem_nil _, rfl⟩
  | item :: rest => by
    rw [readItems]
    refine ((meets_read item).imp (fun _ => id) fun error refused => ⟨item, List.mem_cons_self, refused⟩).bind ?_
    rintro tree ⟨supported, rfl⟩
    refine ((meets_readItems rest).imp (fun _ => id) ?_).bind ?_
    · rintro error ⟨other, member, refused⟩
      exact ⟨other, List.mem_cons_of_mem _ member, refused⟩
    · rintro trees ⟨all, rfl⟩
      exact ⟨List.forall_mem_cons.2 ⟨supported, all⟩, rfl⟩

theorem meets_readEntries : (entries : List (Node × Node)) →
    Meets (fun pairs => (∀ entry ∈ entries, entry.1.IsString ∧ entry.1.IsSupported ∧ entry.2.IsSupported)
        ∧ pairs = entryPairs entries)
      (fun error => ∃ entry ∈ entries, EntryRefused source entry error) (readEntries source entries)
  | [] => ⟨List.forall_mem_nil _, rfl⟩
  | (key, value) :: rest => by
    rw [readEntries]
    have here {error : Error} (refused : EntryRefused source (key, value) error) :
        ∃ entry ∈ (key, value) :: rest, EntryRefused source entry error := ⟨_, List.mem_cons_self, refused⟩
    refine ((meets_key (meets_read key)).imp (fun _ => id) fun error => here).bind ?_
    rintro name ⟨string, supported, rfl⟩
    refine ((meets_read value).imp (fun _ => id) fun error refused => here (.value refused)).bind ?_
    rintro tree ⟨valueSupported, rfl⟩
    refine ((meets_readEntries rest).imp (fun _ => id) ?_).bind ?_
    · rintro error ⟨entry, member, refused⟩
      exact ⟨entry, List.mem_cons_of_mem _ member, refused⟩
    · rintro pairs ⟨all, rfl⟩
      exact ⟨List.forall_mem_cons.2 ⟨⟨string, supported, valueSupported⟩, all⟩, rfl⟩

end

theorem read_eq_ok_iff {tree : Tree} : node.read source = .ok tree ↔ node.IsSupported ∧ tree = node.tree := by
  have meets : Meets _ (node.Refused source) (node.read source) := meets_read node
  constructor
  · intro reads
    rw [reads] at meets
    exact meets
  · rintro ⟨supported, rfl⟩
    cases outcome : node.read source with
    | ok tree =>
      rw [outcome] at meets
      rw [meets.2]
    | error error =>
      rw [outcome] at meets
      exact absurd supported (Refused.not_isSupported meets)

theorem refused_of_read (fails : node.read source = .error error) : node.Refused source error := by
  have meets : Meets _ (node.Refused source) (node.read source) := meets_read node
  rw [fails] at meets
  exact meets

theorem Breaks.category_eq (breaks : node.Breaks source error) (short : ¬node.IsOverlong) : error.category = .parse := by
  cases breaks with
  | overlong long => exact absurd long short
  | aliased | anchored | keyed => rfl

end Node

/-! ## Reading a stream -/

section

variable {source : String} {documents : List Node} {fault : Option Fault} {tree : Tree} {error : Error}

theorem treeOfEvents_eq_ok_iff :
    treeOfEvents source (streamEvents documents) fault = .ok tree
      ↔ documents = [] ∧ tree = .null ∨ ∃ node, documents = [node] ∧ node.IsSupported ∧ tree = node.tree := by
  rw [treeOfEvents_streamEvents]
  constructor
  · intro reads
    cases documents with
    | nil =>
      cases reads
      exact .inl ⟨rfl, rfl⟩
    | cons node rest =>
      obtain ⟨root, read, last⟩ := Outcome.bind_eq_ok.1 reads
      cases rest with
      | nil =>
        cases last
        exact .inr ⟨node, rfl, Node.read_eq_ok_iff.1 read⟩
      | cons other rest => cases last
  · rintro (⟨rfl, rfl⟩ | ⟨node, rfl, supported⟩)
    · rfl
    · exact Outcome.bind_eq_ok.2 ⟨tree, Node.read_eq_ok_iff.2 supported, rfl⟩

/-- A stream fails for a second document, or for what stands in the first one. -/
theorem cause_of_treeOfEvents (fails : treeOfEvents source (streamEvents documents) fault = .error error) :
    error = .manyDocuments source ∧ 1 < documents.length
      ∨ ∃ node, documents.head? = some node ∧ node.Refused source error := by
  rw [treeOfEvents_streamEvents] at fails
  cases documents with
  | nil => cases fails
  | cons node rest =>
    rcases Outcome.bind_eq_error.1 fails with refused | ⟨tree, -, fails⟩
    · exact .inr ⟨node, rfl, Node.refused_of_read refused⟩
    · cases rest with
      | nil => cases fails
      | cons other rest =>
        cases fails
        exact .inl ⟨rfl, Nat.succ_lt_succ (Nat.succ_pos _)⟩

end

/-- A stream is read just when it has one document at most and every node of it fits, and the tree is then null or the one
that the node stands for. It fails for a second document or for a node of the first one that does not fit, so with an error
of the parse class unless a numeral is too long, and never for an event that stands where no other could. -/
theorem documents_read (source : String) (documents : List Node) (fault : Option Fault) :
    (∀ tree, treeOfEvents source (streamEvents documents) fault = .ok tree
      ↔ documents = [] ∧ tree = .null ∨ ∃ node, documents = [node] ∧ node.IsSupported ∧ tree = node.tree)
    ∧ ∀ error, treeOfEvents source (streamEvents documents) fault = .error error →
      (error = .manyDocuments source ∧ 1 < documents.length
        ∨ ∃ node, documents.head? = some node ∧ node.Refused source error)
      ∧ ((∀ node ∈ documents, ∀ inner ∈ node.nodes, ¬inner.IsOverlong) → error.category = .parse)
      ∧ (∀ event, error ≠ .unexpectedEvent event source) ∧ error ≠ .streamNotStarted source
      ∧ error ≠ .documentNotStarted source ∧ error ≠ .documentNotEnded source := by
  refine ⟨fun tree => treeOfEvents_eq_ok_iff, fun error fails => ?_⟩
  have cause := cause_of_treeOfEvents fails
  refine ⟨cause, fun short => ?_, ?_⟩
  · rcases cause with ⟨rfl, -⟩ | ⟨node, first, inner, member, breaks⟩
    · rfl
    · exact breaks.category_eq (short node (List.mem_of_mem_head? first) inner member)
  · rcases cause with ⟨rfl, -⟩ | ⟨node, -, inner, -, breaks⟩
    · exact ⟨nofun, nofun, nofun, nofun⟩
    · cases breaks <;> exact ⟨nofun, nofun, nofun, nofun⟩

/-- A mapping with a repeated key, a tagged key, a quoted one, and collections in it. -/
def repeatedNode : Node :=
  .mapping {} [
    (.scalar {} "a".toList .plain, .scalar {} "1".toList .plain),
    (.scalar ⟨none, some textTag⟩ "2".toList .plain, .sequence {} [.scalar {} "null".toList .doubleQuoted]),
    (.scalar {} "true".toList .singleQuoted, .scalar {} "~".toList .plain),
    (.scalar {} "a".toList .literal, .mapping {} [])]

/-- The same node in a sequence that has an anchor. -/
def anchoredNode : Node :=
  .mapping {} [(.scalar {} "b".toList .plain, .sequence ⟨some "x".toList, none⟩ [repeatedNode])]

theorem documents_read_repeatedNode :
    (treeOfEvents "f.yaml" (streamEvents [repeatedNode]) none
        = .ok (.mapping [("a", .mapping []), ("2", .sequence [.string "null"]), ("true", .null)])
      ∧ repeatedNode.IsSupported)
    ∧ (treeOfEvents "f.yaml" (streamEvents [repeatedNode, repeatedNode]) none = .error (.manyDocuments "f.yaml")
      ∧ treeOfEvents "f.yaml" (streamEvents [anchoredNode]) none = .error (.anchorUsed "x" "f.yaml")
      ∧ anchoredNode.Refused "f.yaml" (.anchorUsed "x" "f.yaml")) := by
  have reads : treeOfEvents "f.yaml" (streamEvents [repeatedNode]) none
      = .ok (.mapping [("a", .mapping []), ("2", .sequence [.string "null"]), ("true", .null)]) := by decide +kernel
  have many : treeOfEvents "f.yaml" (streamEvents [repeatedNode, repeatedNode]) none = .error (.manyDocuments "f.yaml") := by
    decide +kernel
  have anchored : treeOfEvents "f.yaml" (streamEvents [anchoredNode]) none = .error (.anchorUsed "x" "f.yaml") := by
    decide +kernel
  obtain ⟨accepts, -⟩ := documents_read "f.yaml" [repeatedNode] none
  obtain ⟨-, refuses⟩ := documents_read "f.yaml" [anchoredNode] none
  refine ⟨⟨reads, ?_⟩, many, anchored, ?_⟩
  · obtain ⟨impossible, -⟩ | ⟨node, same, supported, -⟩ := (accepts _).1 reads
    · cases impossible
    · cases same
      exact supported
  · obtain ⟨⟨impossible, -⟩ | ⟨node, first, refused⟩, -⟩ := refuses _ anchored
    · cases impossible
    · cases first
      exact refused

end Yaml

end LayeredConfig
