import LayeredConfig.Yaml.Scalar

/-!
# Canonical text of a tree

One text for each tree: a line for each entry of a mapping, keys in increasing order, and for each item of
a sequence; children two columns deeper; empty containers in the line of their parent. A line cannot be
written when the quoting of its key or value cannot be decided, and then the text ends before it.
-/

namespace LayeredConfig.Yaml

/-- A line without its end, or the reason why it cannot be written. -/
abbrev Line := Except Error (List Char)

/-- The spaces before a line. -/
def pad (indent : Nat) : List Char :=
  List.replicate indent ' '

/-- The text of a node that stands in the line of its parent; a container with children does not. -/
def inline? : Tree → Option Line
  | .mapping [] => some (.ok "\x7b\x7d".toList)
  | .sequence [] => some (.ok "[]".toList)
  | .mapping _ | .sequence _ => none
  | scalar => some (Scalar.write scalar)

/-- The line that leads in a child, and below it the lines of the child's own children. -/
def leadIn (lead : Line) (child : Tree) (below : List Line) : List Line :=
  match inline? child with
  | some text => [do return (← lead) ++ ' ' :: (← text)]
  | none => lead :: below

/-- The lead of an entry: its key and a colon. -/
def entryLead (indent : Nat) (key : String) : Line :=
  (Scalar.writeKey key).map fun text => pad indent ++ text ++ [':']

/-- The lead of an item: a dash. -/
def itemLead (indent : Nat) : Line :=
  .ok (pad indent ++ ['-'])

mutual

/-- The lines of the children of a node. -/
def childLines (indent : Nat) : Tree → List Line
  | .mapping entries => (Entries.sortByKey (entryBlocks indent entries)).flatMap Prod.snd
  | .sequence items => itemLines indent items
  | _ => []

/-- The lines of each entry, beside its key. -/
def entryBlocks (indent : Nat) : List (String × Tree) → List (String × List Line)
  | [] => []
  | (key, value) :: rest =>
    (key, leadIn (entryLead indent key) value (childLines (indent + 2) value))
      :: entryBlocks indent rest

/-- The lines of the items, one after another. -/
def itemLines (indent : Nat) : List Tree → List Line
  | [] => []
  | item :: rest =>
    leadIn (itemLead indent) item (childLines (indent + 2) item) ++ itemLines indent rest

end

/-- The lines of a whole tree. -/
def treeLines (tree : Tree) : List Line :=
  match inline? tree with
  | some text => [text]
  | none => childLines 0 tree

/-- The lines that can be written, each with its end, up to the first that cannot, and why it cannot. -/
def joinLines : List Line → List Char × Option Error
  | [] => ([], none)
  | .error e :: _ => ([], some e)
  | .ok line :: rest =>
    let (text, failure) := joinLines rest
    (line ++ '\n' :: text, failure)

/-- As much of the canonical text of a tree as can be written. -/
def writtenPart (tree : Tree) : List Char :=
  (joinLines (treeLines tree)).1

/-- The canonical text of a tree. -/
def write (tree : Tree) : Except Error (List Char) :=
  match joinLines (treeLines tree) with
  | (text, none) => .ok text
  | (_, some e) => .error e

end LayeredConfig.Yaml
