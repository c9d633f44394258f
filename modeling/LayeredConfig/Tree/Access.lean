import LayeredConfig.KeyPath.Parse
import LayeredConfig.Tree.Basic

/-!
# Required values

Readers for nodes that have to be there: each takes a path, as components or in written form, and fails
when no node stands there or when it is of another kind.
-/

namespace LayeredConfig

/-- A path handed in by a caller: in written form, or as its components. -/
inductive PathArgument where
  | text (expression : String)
  | components (path : KeyPath)
  deriving DecidableEq, Repr

/-- The path that is meant. -/
def PathArgument.path : PathArgument → Except Error KeyPath
  | .text expression => KeyPath.parse expression
  | .components path => .ok path

namespace Tree

/-- Whether a node stands at a path. -/
def hasNode (tree : Tree) (argument : PathArgument) : Except Error Bool :=
  argument.path.map fun path => (tree.find path).isSome

/-- The node at a path, which has to be there. -/
def require (tree : Tree) (argument : PathArgument) : Except Error Tree := do
  let path ← argument.path
  match tree.find path with
  | some node => .ok node
  | none => .error (.nodeAbsent path)

/-- The node at a path, read as the wanted kind by `read?`. -/
def expect {α : Type} (read? : Tree → Option α) (wanted : Wanted) (tree : Tree)
    (argument : PathArgument) : Except Error α := do
  let path ← argument.path
  let node ← tree.require (.components path)
  match read? node with
  | some value => .ok value
  | none => .error (.unexpectedKind wanted path node.kind)

/-- The text of the string at a path. -/
def expectString : Tree → PathArgument → Except Error String :=
  expect (fun node => node.asString.toOption) .string

/-- The integer at a path. -/
def expectInt : Tree → PathArgument → Except Error Int64 :=
  expect (fun node => node.asInt.toOption) .int

/-- The number at a path, an integer being rounded. -/
def expectDouble : Tree → PathArgument → Except Error Binary64 :=
  expect (fun node => node.asDouble.toOption) .number

/-- The boolean at a path. -/
def expectBool : Tree → PathArgument → Except Error Bool :=
  expect (fun node => node.asBool.toOption) .bool

end Tree

end LayeredConfig
