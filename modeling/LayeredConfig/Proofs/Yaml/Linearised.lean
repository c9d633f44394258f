import LayeredConfig.Proofs.Yaml.RoundTrip

/-!
# Events of nodes

The events of a document are those of one node, written out from the left: `Node.events`. Going over them gives what reading
the node itself does, a collection by its parts (`Node.read`), and nothing behind the node is touched: `Node.run_events`. So
the tree of a whole stream is read off its documents, `treeOfEvents_streamEvents`.
-/

namespace LayeredConfig.Yaml

/-- A node of a document. -/
inductive Node where
  | aliased (name : List Char)
  | scalar (properties : Properties) (text : List Char) (style : Style)
  | sequence (properties : Properties) (items : List Node)
  | mapping (properties : Properties) (entries : List (Node × Node))

namespace Node

mutual

/-- The events of a node. -/
def events : Node → List Event
  | .aliased name => [.alias name]
  | .scalar properties text style => [.scalar properties text style]
  | .sequence properties items => .sequenceStart properties :: (itemEvents items ++ [.sequenceEnd])
  | .mapping properties entries => .mappingStart properties :: (entryEvents entries ++ [.mappingEnd])

/-- The events of items, one after another. -/
def itemEvents : List Node → List Event
  | [] => []
  | item :: rest => item.events ++ itemEvents rest

/-- The events of entries, one after another, each the key and then the value. -/
def entryEvents : List (Node × Node) → List Event
  | [] => []
  | (key, value) :: rest => key.events ++ (value.events ++ entryEvents rest)

end

/-- The key that a tree is taken as. -/
def keyOf (source : String) : Tree → Except Error String
  | .string key => .ok key
  | tree => .error (.keyNotString tree.kind source)

mutual

/-- Reads a node: its anchor first, then what is inside. -/
def read (source : String) : Node → Except Error Tree
  | .aliased _ => .error (.aliasUsed source)
  | .scalar properties text style => do
    Walk.refuseAnchor source properties
    Walk.scalarNode properties text style
  | .sequence properties items => do
    Walk.refuseAnchor source properties
    let trees ← readItems source items
    return .sequence trees
  | .mapping properties entries => do
    Walk.refuseAnchor source properties
    let pairs ← readEntries source entries
    return .mapping (Entries.ofPairs pairs)

/-- Reads items, one after another. -/
def readItems (source : String) : List Node → Except Error (List Tree)
  | [] => return []
  | item :: rest => do
    let tree ← item.read source
    let trees ← readItems source rest
    return tree :: trees

/-- Reads entries, one after another, each key before its value. -/
def readEntries (source : String) : List (Node × Node) → Except Error (List (String × Tree))
  | [] => return []
  | (key, value) :: rest => do
    let name ← key.read source >>= keyOf source
    let tree ← value.read source
    let pairs ← readEntries source rest
    return (name, tree) :: pairs

end

end Node

/-- The events of a stream of documents. -/
def streamEvents (documents : List Node) : List Event :=
  .streamStart :: (documents.flatMap (fun node => .documentStart :: (node.events ++ [.documentEnd])) ++ [.streamEnd])

section

variable {source : String} {fault : Fault}

theorem Walk.run_cons_eq_bind (walk : Walk) (event : Event) (more : List Event) :
    walk.run source fault (event :: more) = walk.step source event >>= fun walk => walk.run source fault more :=
  rfl

namespace Node

open Walk (run_cons_eq_bind step stepInside deliver)

/-- Where a key is due, a tree that is delivered is taken as one. -/
theorem deliver_key (tree : Tree) (entries : List (String × Tree)) (frames : List Frame) :
    deliver source tree (.mapping entries none :: frames)
      = keyOf source tree >>= fun key => .ok (.inside (.mapping entries (some key) :: frames)) := by
  cases tree <;> rfl

-- The induction is on the node, for all frames and all events behind: a part of a collection is read above the frame of the
-- collection, and what follows it is the rest of that collection.
mutual

/-- Going over the events of a node reads it, delivers its tree, and goes on behind. -/
theorem run_events (frames : List Frame) (more : List Event) : (node : Node) →
    (Walk.inside frames).run source fault (node.events ++ more)
      = node.read source >>= fun tree => deliver source tree frames >>= fun walk => walk.run source fault more
  | .aliased name => rfl
  | .scalar properties text style => by
    rw [events, read, List.singleton_append, run_cons_eq_bind, step, stepInside]
    simp only [bind_assoc]
  | .sequence properties items => by
    rw [events, read, List.cons_append, List.append_assoc, run_cons_eq_bind, step, stepInside]
    simp only [bind_assoc, pure_bind, run_itemEvents]
    simp only [List.singleton_append, run_cons_eq_bind, step, stepInside, List.append_nil, List.reverse_reverse]
  | .mapping properties entries => by
    rw [events, read, List.cons_append, List.append_assoc, run_cons_eq_bind, step, stepInside]
    simp only [bind_assoc, pure_bind, run_entryEvents]
    simp only [List.singleton_append, run_cons_eq_bind, step, stepInside, Entries.ofPairs]

/-- Going over the events of items reads them into the sequence that is open. -/
theorem run_itemEvents (frames : List Frame) (more : List Event) (done : List Tree) : (items : List Node) →
    (Walk.inside (.sequence done :: frames)).run source fault (itemEvents items ++ more)
      = readItems source items >>= fun trees =>
        (Walk.inside (.sequence (trees.reverse ++ done) :: frames)).run source fault more
  | [] => rfl
  | item :: rest => by
    -- The items that are done stand last first, so the next one goes before them.
    rw [itemEvents, readItems, List.append_assoc, run_events]
    simp only [bind_assoc, pure_bind, deliver, List.reverse_cons, List.append_assoc, List.singleton_append]
    congr 1
    funext tree
    exact run_itemEvents frames more (tree :: done) rest

/-- Going over the events of entries reads them into the mapping that is open. -/
theorem run_entryEvents (frames : List Frame) (more : List Event) (done : List (String × Tree)) :
    (entries : List (Node × Node)) →
    (Walk.inside (.mapping done none :: frames)).run source fault (entryEvents entries ++ more)
      = readEntries source entries >>= fun pairs =>
        (Walk.inside (.mapping (pairs.foldl (fun entries pair => Entries.put pair.1 pair.2 entries) done) none :: frames)).run
          source fault more
  | [] => rfl
  | (key, value) :: rest => by
    rw [entryEvents, readEntries, List.append_assoc, List.append_assoc, run_events]
    simp only [bind_assoc, pure_bind, deliver_key, List.foldl_cons]
    congr 1
    funext tree
    congr 1
    funext name
    show (Walk.inside (.mapping done (some name) :: frames)).run source fault _ = _
    rw [run_events]
    congr 1
    funext tree
    exact run_entryEvents frames more (Entries.put name tree done) rest

end

end Node

end

/-- A stream without documents is null, and one with more than one is refused once its first document has been read. -/
theorem treeOfEvents_streamEvents (source : String) (documents : List Node) (fault : Option Fault) :
    treeOfEvents source (streamEvents documents) fault =
      match documents with
      | [] => .ok .null
      | node :: rest =>
        node.read source >>= fun tree => if rest.isEmpty then .ok tree else .error (.manyDocuments source) := by
  cases documents with
  | nil => rfl
  | cons node rest =>
    unfold treeOfEvents streamEvents
    rw [Walk.run_cons (w := .beforeDocument) rfl, List.flatMap_cons, List.cons_append, List.cons_append,
      Walk.run_cons (w := .inside []) rfl, List.append_assoc, List.append_assoc, Node.run_events]
    dsimp only
    congr 1
    funext tree
    cases rest <;> rfl

end LayeredConfig.Yaml
