import LayeredConfig.Error
import LayeredConfig.Number.Binary64
import LayeredConfig.Tree.Entries

/-!
# Configuration trees

A `Tree` is a null, a scalar, a sequence of trees or a mapping from texts to trees. `Tree.find` follows a
key path through mappings, and the accessors read a node as one kind and never as another, except that
an integer may be read as a number. Mappings built by this library hold no key twice: `Tree.HasDistinctKeys`.
-/

namespace LayeredConfig

/-- A configuration tree. -/
inductive Tree where
  | null
  | bool (value : Bool)
  | int (value : Int64)
  | double (value : Binary64)
  | string (text : String)
  | sequence (items : List Tree)
  | mapping (entries : List (String × Tree))
  deriving Inhabited, Repr

namespace Tree

/-- The kind of the root. -/
def kind : Tree → Kind
  | .null => .null
  | .bool _ => .bool
  | .int _ => .int
  | .double _ => .double
  | .string _ => .string
  | .sequence _ => .sequence
  | .mapping _ => .mapping

/-- Whether the root is a sequence or a mapping. -/
def isContainer : Tree → Bool
  | .sequence _ | .mapping _ => true
  | _ => false

/-- Whether the root is a mapping. -/
def isMapping : Tree → Bool
  | .mapping _ => true
  | _ => false

/-- Whether the root is null or a container without children. -/
def isEmpty : Tree → Bool
  | .null => true
  | .sequence items => items.isEmpty
  | .mapping entries => entries.isEmpty
  | _ => false

/-! ## Following a path -/

/-- The child under a key; only mappings have any. -/
def child? : Tree → String → Option Tree
  | .mapping entries, key => entries.lookup key
  | _, _ => none

/-- The node at a path. -/
def find (tree : Tree) : KeyPath → Option Tree
  | [] => some tree
  | key :: rest => (tree.child? key).bind fun child => child.find rest

/-- The tree with the node at a path, if there is one, replaced by what `f` makes of it. -/
def modify (tree : Tree) (f : Tree → Tree) : KeyPath → Tree
  | [] => f tree
  | key :: rest =>
    match tree with
    | .mapping entries =>
      match entries.lookup key with
      | some child => .mapping (Entries.put key (child.modify f rest) entries)
      | none => tree
    | _ => tree

theorem find_nil (tree : Tree) : tree.find [] = some tree := by
  cases tree <;> rfl

theorem find_cons (tree : Tree) (key : String) (rest : KeyPath) :
    tree.find (key :: rest) = (tree.child? key).bind fun child => child.find rest := by
  cases tree <;> rfl

/-! ## Accessors -/

/-- The value of a boolean node. -/
def asBool : Tree → Except Error Bool
  | .bool value => .ok value
  | tree => .error (.notWanted .bool tree.kind)

/-- The value of an integer node. -/
def asInt : Tree → Except Error Int64
  | .int value => .ok value
  | tree => .error (.notWanted .int tree.kind)

/-- The value of a number node, an integer being rounded to the nearest double. -/
def asDouble : Tree → Except Error Binary64
  | .int value => .ok (Binary64.ofInt value.toInt)
  | .double value => .ok value
  | tree => .error (.notWanted .number tree.kind)

/-- The text of a string node. -/
def asString : Tree → Except Error String
  | .string text => .ok text
  | tree => .error (.notWanted .string tree.kind)

/-- The items of a sequence node. -/
def asSequence : Tree → Except Error (List Tree)
  | .sequence items => .ok items
  | tree => .error (.notWanted .sequence tree.kind)

/-- The entries of a mapping node. -/
def asMapping : Tree → Except Error (List (String × Tree))
  | .mapping entries => .ok entries
  | tree => .error (.notWanted .mapping tree.kind)

/-! ## Nodes of a tree -/

mutual

/-- The number of nodes of a tree. -/
def nodeCount : Tree → Nat
  | .sequence items => 1 + itemsNodeCount items
  | .mapping entries => 1 + entriesNodeCount entries
  | _ => 1

/-- The number of nodes of the items of a sequence. -/
def itemsNodeCount : List Tree → Nat
  | [] => 0
  | item :: rest => item.nodeCount + itemsNodeCount rest

/-- The number of nodes of the entries of a mapping. -/
def entriesNodeCount : List (String × Tree) → Nat
  | [] => 0
  | (_, value) :: rest => value.nodeCount + entriesNodeCount rest

end

mutual

/-- No mapping of the tree holds a key twice. -/
def HasDistinctKeys : Tree → Prop
  | .sequence items => ItemsHaveDistinctKeys items
  | .mapping entries => (entries.map Prod.fst).Nodup ∧ EntriesHaveDistinctKeys entries
  | _ => True

/-- No mapping of the items holds a key twice. -/
def ItemsHaveDistinctKeys : List Tree → Prop
  | [] => True
  | item :: rest => item.HasDistinctKeys ∧ ItemsHaveDistinctKeys rest

/-- No mapping below the entries holds a key twice. -/
def EntriesHaveDistinctKeys : List (String × Tree) → Prop
  | [] => True
  | (_, value) :: rest => value.HasDistinctKeys ∧ EntriesHaveDistinctKeys rest

end

end Tree

end LayeredConfig
