import LayeredConfig.Tree.Access

/-!
# Changing required nodes

Changes to a node that has to be there. The node is looked up before anything is known of the new value, so its
absence is the failure that counts.
-/

namespace LayeredConfig.Tree

/-- The tree with the node at a path replaced. -/
def replace (tree : Tree) (argument : PathArgument) (value : Except Error Tree) :
    Except Error Tree := do
  let path ← argument.path
  let _ ← tree.require (.components path)
  let value ← value
  return tree.modify (fun _ => value) path

/-- The tree with an item added to the end of the sequence at a path. -/
def append (tree : Tree) (argument : PathArgument) (value : Except Error Tree) :
    Except Error Tree := do
  let path ← argument.path
  let node ← tree.require (.components path)
  let items ← node.asSequence
  let value ← value
  return tree.modify (fun _ => .sequence (items ++ [value])) path

end LayeredConfig.Tree
