import LayeredConfig.Tree.Basic

/-!
# Assigning a node

`Tree.assign` puts a value at a path. With leave to add it wants the path free and makes the mappings on
the way; without, it wants the path taken. A null root counts as an empty mapping and becomes one.
-/

namespace LayeredConfig

/-- What an attempt to change a tree leaves: the tree as it then is, and the failure if there was one. -/
structure Attempt where
  tree : Tree
  failure : Option Error

/-- The tree, if nothing failed. -/
def Attempt.outcome (attempt : Attempt) : Except Error Tree :=
  match attempt.failure with
  | none => .ok attempt.tree
  | some e => .error e

namespace Tree

/-- Assigns below a mapping with these entries. Gives the entries afterwards and the failure. -/
def assignEntries (value : Tree) (add : Bool) :
    KeyPath → List (String × Tree) → List (String × Tree) × Option Error
  | [], entries => (entries, some .assignToRoot)
  | [key], entries =>
    match entries.lookup key, add with
    | none, false => (entries, some (.keyAbsent key))
    | some _, true => (entries, some (.keyPresent key))
    | _, _ => (Entries.put key value entries, none)
  | key :: next :: rest, entries =>
    match entries.lookup key with
    | none =>
      if add then
        let (below, failure) := assignEntries value add (next :: rest) []
        (Entries.put key (.mapping below) entries, failure)
      else (entries, some (.componentAbsent key))
    | some (.mapping children) =>
      let (below, failure) := assignEntries value add (next :: rest) children
      (Entries.put key (.mapping below) entries, failure)
    | some node => (entries, some (.componentNotMapping key node.kind))

/-- Assigns a value at a path: adding it when `add` holds, replacing what is there otherwise. -/
def assign (tree : Tree) (path : KeyPath) (value : Tree) (add : Bool) : Attempt :=
  if path.isEmpty then ⟨tree, some .assignToRoot⟩
  else
    match tree with
    | .null =>
      let (entries, failure) := assignEntries value add path []
      ⟨.mapping entries, failure⟩
    | .mapping children =>
      let (entries, failure) := assignEntries value add path children
      ⟨.mapping entries, failure⟩
    | _ => ⟨tree, some (.rootNotMapping tree.kind)⟩

end Tree

end LayeredConfig
