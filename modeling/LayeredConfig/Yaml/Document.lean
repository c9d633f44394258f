import LayeredConfig.Yaml.Event
import LayeredConfig.Yaml.Scalar

/-!
# The tree of a document

`Walk` goes over events one by one and builds the tree that they describe. It takes one document without
anchors and aliases whose keys are all read as strings. Scalars in quotes, block scalars and scalars tagged
as text are strings; plain ones are typed by `Scalar.read`. An empty stream is null.
-/

namespace LayeredConfig.Yaml

/-- The tag of text. -/
def textTag : List Char := "tag:yaml.org,2002:str".toList

/-- A collection that is not complete. -/
inductive Frame where
  /-- A sequence and its items so far, last first. -/
  | sequence (items : List Tree)
  /-- A mapping, its entries so far, and the key whose value is due. -/
  | mapping (entries : List (String × Tree)) (key : Option String)

/-- How far a document has been read. -/
inductive Walk where
  | beforeStream
  | beforeDocument
  /-- In a document, inside these collections, innermost first. -/
  | inside (frames : List Frame)
  | afterRoot (root : Tree)
  | afterDocument (root : Tree)
  | done (root : Tree)

namespace Walk

/-- Takes a complete node to where it belongs. -/
def deliver (source : String) (node : Tree) : List Frame → Except Error Walk
  | [] => .ok (.afterRoot node)
  | .sequence items :: frames => .ok (.inside (.sequence (node :: items) :: frames))
  | .mapping entries (some key) :: frames =>
    .ok (.inside (.mapping (Entries.put key node entries) none :: frames))
  | .mapping entries none :: frames =>
    match node with
    | .string key => .ok (.inside (.mapping entries (some key) :: frames))
    | _ => .error (.keyNotString node.kind source)

/-- The node of a scalar. -/
def scalarNode (properties : Properties) (text : List Char) (style : Style) : Except Error Tree :=
  if style != .plain || properties.tag == some textTag then .ok (.string (String.ofList text))
  else Scalar.read text

/-- Refuses a node with an anchor. -/
def refuseAnchor (source : String) (properties : Properties) : Except Error Unit :=
  match properties.anchor with
  | some anchor => .error (.anchorUsed (String.ofList anchor) source)
  | none => .ok ()

/-- Goes over an event inside a document. -/
def stepInside (source : String) (frames : List Frame) (event : Event) : Except Error Walk :=
  match event, frames with
  | .alias _, _ => .error (.aliasUsed source)
  | .scalar properties text style, _ => do
    refuseAnchor source properties
    let node ← scalarNode properties text style
    deliver source node frames
  | .sequenceStart properties, _ => do
    refuseAnchor source properties
    return .inside (.sequence [] :: frames)
  | .mappingStart properties, _ => do
    refuseAnchor source properties
    return .inside (.mapping [] none :: frames)
  | .sequenceEnd, .sequence items :: frames => deliver source (.sequence items.reverse) frames
  | .mappingEnd, .mapping entries none :: frames => deliver source (.mapping entries) frames
  | _, _ => .error (.unexpectedEvent event.name source)

/-- Goes over an event. -/
def step (source : String) (walk : Walk) (event : Event) : Except Error Walk :=
  match walk, event with
  | .beforeStream, .streamStart => .ok .beforeDocument
  | .beforeStream, _ => .error (.streamNotStarted source)
  | .beforeDocument, .streamEnd => .ok (.done .null)
  | .beforeDocument, .documentStart => .ok (.inside [])
  | .beforeDocument, _ => .error (.documentNotStarted source)
  | .inside frames, event => stepInside source frames event
  | .afterRoot root, .documentEnd => .ok (.afterDocument root)
  | .afterRoot _, _ => .error (.documentNotEnded source)
  | .afterDocument root, .streamEnd => .ok (.done root)
  | .afterDocument _, _ => .error (.manyDocuments source)
  | .done root, _ => .ok (.done root)

/-- Goes over events until the tree is complete; `fault` is what stands behind the last event. -/
def run (source : String) (fault : Fault) (walk : Walk) : List Event → Except Error Tree
  | [] =>
    match walk with
    | .done root => .ok root
    | _ => .error (fault.toError source)
  | event :: rest => do
    let walk ← walk.step source event
    walk.run source fault rest

end Walk

/-- The tree that events describe; `fault` is what stands behind the last event. -/
def treeOfEvents (source : String) (events : List Event) (fault : Option Fault) :
    Except Error Tree :=
  Walk.beforeStream.run source (fault.getD .malformed) events

end LayeredConfig.Yaml
