import LayeredConfig.Number.Numeral
import LayeredConfig.Tree.Basic

/-!
# Addresses of nodes

Every node of a tree has an address: the key path that leads to it, an item of a sequence counting by the
digits of its position. `Tree.mapStrings` changes the strings of a tree, each by its address.
-/

namespace LayeredConfig.Tree

/-- The address of the item at a position. -/
def itemAddress (path : KeyPath) (position : Nat) : KeyPath :=
  path ++ [String.ofList (decimalDigits position)]

/-- The address of the entry with a key. -/
def entryAddress (path : KeyPath) (key : String) : KeyPath :=
  path ++ [key]

mutual

/-- The addresses of the nodes of a tree that itself stands at `path`. -/
def addresses (path : KeyPath) : Tree → List KeyPath
  | .sequence items => path :: itemAddresses path 0 items
  | .mapping entries => path :: entryAddresses path entries
  | _ => [path]

/-- The addresses of the nodes of items from a position on. -/
def itemAddresses (path : KeyPath) (position : Nat) : List Tree → List KeyPath
  | [] => []
  | item :: rest =>
    item.addresses (itemAddress path position) ++ itemAddresses path (position + 1) rest

/-- The addresses of the nodes of entries. -/
def entryAddresses (path : KeyPath) : List (String × Tree) → List KeyPath
  | [] => []
  | (key, value) :: rest =>
    value.addresses (entryAddress path key) ++ entryAddresses path rest

end

mutual

/-- The tree, which stands at `path`, with each of its strings changed by `f`. -/
def mapStrings (f : KeyPath → String → String) (path : KeyPath) : Tree → Tree
  | .string text => .string (f path text)
  | .sequence items => .sequence (mapItemStrings f path 0 items)
  | .mapping entries => .mapping (mapEntryStrings f path entries)
  | tree => tree

/-- The items from a position on with their strings changed. -/
def mapItemStrings (f : KeyPath → String → String) (path : KeyPath) (position : Nat) :
    List Tree → List Tree
  | [] => []
  | item :: rest =>
    item.mapStrings f (itemAddress path position) :: mapItemStrings f path (position + 1) rest

/-- The entries with the strings of their values changed. -/
def mapEntryStrings (f : KeyPath → String → String) (path : KeyPath) :
    List (String × Tree) → List (String × Tree)
  | [] => []
  | (key, value) :: rest =>
    (key, value.mapStrings f (entryAddress path key)) :: mapEntryStrings f path rest

end

end LayeredConfig.Tree
