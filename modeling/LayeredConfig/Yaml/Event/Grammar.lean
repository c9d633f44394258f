import LayeredConfig.Yaml.Event
import LayeredConfig.Yaml.Token.Stream

/-!
# The events of a row of tokens

The grammar of YAML as a machine with a stack: each step looks at the tokens ahead, gives one event and
says what is due next. The result of `eventsOf` is the events up to the first fault, and that fault. The
tokens may themselves end in a fault, which counts only when the machine needs a token beyond them.
-/

namespace LayeredConfig.Yaml

/-- What may come next. -/
inductive Due where
  | streamStart
  /-- The first document, which needs no marker. -/
  | firstDocument
  /-- A further document, or the end of the stream. -/
  | nextDocument
  /-- The root after a document marker, which may be left out. -/
  | documentContent
  | documentEnd
  /-- A node in block context. -/
  | blockNode
  /-- The first item, behind the start of a block sequence. -/
  | blockSequenceStart
  | blockSequenceItem
  /-- An item of a block sequence that is no deeper than its mapping. -/
  | indentlessItem
  /-- The first key, behind the start of a block mapping. -/
  | blockMappingStart
  | blockMappingKey
  | blockMappingValue
  | flowSequenceStart
  | flowSequenceItem
  /-- The key of a mapping of one entry inside a flow sequence. -/
  | flowPairKey
  | flowPairValue
  | flowPairEnd
  | flowMappingStart
  | flowMappingKey
  | flowMappingValue
  /-- The value of an entry that has a key and no colon. -/
  | flowMappingNoValue
  deriving DecidableEq, Repr

/-- The state of the grammar machine. -/
structure Machine where
  due : Due
  /-- What is due when the innermost node is complete, innermost first. -/
  stack : List Due := []
  tokens : List Token
  /-- The tag handles of the document and what they stand for. -/
  handles : List (List Char × List Char) := []
  deriving DecidableEq, Repr

namespace Machine

/-- An event and the machine after it; no machine after the end of the stream. -/
abbrev Step := Except Fault (Event × Option Machine)

/-- Gives an event after which something is due. -/
def give (m : Machine) (event : Event) (due : Due) (tokens : List Token) : Step :=
  .ok (event, some { m with due, tokens })

/-- Gives an event that completes a node. -/
def complete (m : Machine) (event : Event) (tokens : List Token) : Step :=
  match m.stack with
  | [] => .error .malformed
  | due :: stack => .ok (event, some { m with due, stack, tokens })

/-- Notes what is due when the next node is complete. -/
def thenDue (m : Machine) (due : Due) : Machine :=
  { m with stack := due :: m.stack }

/-! ## Nodes -/

/-- The tag handles that are known without a directive. -/
def standardHandles : List (List Char × List Char) :=
  [("!".toList, "!".toList), ("!!".toList, "tag:yaml.org,2002:".toList)]

/-- The tag that a handle and what follows it stand for. -/
def resolveTag (handles : List (List Char × List Char)) (handle : Option (List Char))
    (suffix : List Char) : Except Fault (List Char) :=
  match handle with
  | none => .ok suffix
  | some handle =>
    match handles.lookup handle with
    | some expansion => .ok (expansion ++ suffix)
    | none => .error .malformed

/-- Reads the anchor and the tag before a node, in either order. -/
def properties (fault : Fault) (handles : List (List Char × List Char)) :
    List Token → Except Fault (Properties × List Token)
  | .anchor _ :: [] => .error fault
  | .anchor anchor :: .tag handle suffix :: rest => do
    let tag ← resolveTag handles handle suffix
    return (⟨some anchor, some tag⟩, rest)
  | .anchor anchor :: rest => .ok (⟨some anchor, none⟩, rest)
  | .tag _ _ :: [] => .error fault
  | .tag handle suffix :: .anchor anchor :: rest => do
    let tag ← resolveTag handles handle suffix
    return (⟨some anchor, some tag⟩, rest)
  | .tag handle suffix :: rest => do
    let tag ← resolveTag handles handle suffix
    return (⟨none, some tag⟩, rest)
  | rest => .ok ({}, rest)

/-- Where a node stands, which decides what it may begin with. -/
inductive Context where
  | flow
  | block
  /-- In a block mapping, where a sequence may stand without further indentation. -/
  | mappingValue
  deriving DecidableEq, Repr

/-- Gives the first event of the node ahead. The token that starts a collection is left for the step
after it. -/
def node (fault : Fault) (context : Context) (m : Machine) (tokens : List Token) : Step :=
  match tokens with
  | .alias name :: rest => m.complete (.alias name) rest
  | tokens => do
    let (properties, tokens) ← properties fault m.handles tokens
    match tokens with
    | [] => .error fault
    | .scalar text style :: rest => m.complete (.scalar properties text style) rest
    | .flowSequenceStart :: _ => m.give (.sequenceStart properties) .flowSequenceStart tokens
    | .flowMappingStart :: _ => m.give (.mappingStart properties) .flowMappingStart tokens
    | token :: _ =>
      if token = .blockEntry ∧ context = .mappingValue then
        m.give (.sequenceStart properties) .indentlessItem tokens
      else if token = .blockSequenceStart ∧ context ≠ .flow then
        m.give (.sequenceStart properties) .blockSequenceStart tokens
      else if token = .blockMappingStart ∧ context ≠ .flow then
        m.give (.mappingStart properties) .blockMappingStart tokens
      else if properties.anchor.isSome ∨ properties.tag.isSome then
        m.complete (.scalar properties [] .plain) tokens
      else .error .malformed

/-- Gives the node ahead, after which `due` is due; or an empty node where a token ahead says that there
is none. -/
def nodeOr (fault : Fault) (absent : Token → Bool) (context : Context) (m : Machine) (due : Due)
    (tokens : List Token) : Step :=
  match tokens with
  | [] => .error fault
  | token :: _ =>
    if absent token then m.give .nothing due tokens else (m.thenDue due).node fault context tokens

/-! ## Documents -/

/-- Reads the directives ahead: whether a version was given, and the tag handles. -/
def directives (fault : Fault) (versioned : Bool) (handles : List (List Char × List Char)) :
    List Token → Except Fault (List (List Char × List Char) × List Token)
  | [] => .error fault
  | .directive (.version major _) :: rest =>
    if versioned || major != 1 then .error .malformed else directives fault true handles rest
  | .directive (.handle handle expansion) :: rest =>
    if (handles.lookup handle).isSome then .error .malformed
    else directives fault versioned (handles ++ [(handle, expansion)]) rest
  | .directive .other :: rest => directives fault versioned handles rest
  | rest => .ok (handles, rest)

/-- Reads the markers and directives before a document, or the end of the stream. -/
def nextDocument (fault : Fault) (m : Machine) (tokens : List Token) : Step :=
  match tokens.dropWhile (· == .documentEnd) with
  | [] => .error fault
  | .streamEnd :: _ => .ok (.streamEnd, none)
  | tokens => do
    let (handles, tokens) ← directives fault false [] tokens
    match tokens with
    | .documentStart :: rest =>
      let m := { m with handles := handles ++ standardHandles }
      (m.thenDue .documentEnd).give .documentStart .documentContent rest
    | _ => .error .malformed

/-! ## Collections -/

/-- Whether a token ends an item of a block sequence that is left out. -/
def endsBlockItem (token : Token) : Bool :=
  token == .blockEntry || token == .blockEnd

/-- Whether a token ends a key or value of a block mapping that is left out. -/
def endsBlockPart (token : Token) : Bool :=
  token == .key || token == .value || token == .blockEnd

/-- Whether a token ends an item that is left out, in a sequence inside a block mapping. -/
def endsIndentlessItem (token : Token) : Bool :=
  token == .blockEntry || endsBlockPart token

/-- Whether a token ends a key of a flow collection that is left out. -/
def endsFlowKey (close : Token) (token : Token) : Bool :=
  token == .value || token == .flowEntry || token == close

/-- Whether a token ends a value of a flow collection that is left out. -/
def endsFlowValue (close : Token) (token : Token) : Bool :=
  token == .flowEntry || token == close

/-- Goes on with a block sequence. -/
def blockSequenceItem (fault : Fault) (m : Machine) : List Token → Step
  | [] => .error fault
  | .blockEntry :: rest => m.nodeOr fault endsBlockItem .block .blockSequenceItem rest
  | .blockEnd :: rest => m.complete .sequenceEnd rest
  | _ => .error .malformed

/-- Goes on with a block sequence that has no end token. -/
def indentlessItem (fault : Fault) (m : Machine) : List Token → Step
  | [] => .error fault
  | .blockEntry :: rest => m.nodeOr fault endsIndentlessItem .block .indentlessItem rest
  | tokens => m.complete .sequenceEnd tokens

/-- Goes on with a block mapping where a key is due. -/
def blockMappingKey (fault : Fault) (m : Machine) : List Token → Step
  | [] => .error fault
  | .key :: rest => m.nodeOr fault endsBlockPart .mappingValue .blockMappingValue rest
  | .blockEnd :: rest => m.complete .mappingEnd rest
  | _ => .error .malformed

/-- Goes on with a block mapping where a value is due. -/
def blockMappingValue (fault : Fault) (m : Machine) : List Token → Step
  | [] => .error fault
  | .value :: rest => m.nodeOr fault endsBlockPart .mappingValue .blockMappingKey rest
  | tokens => m.give .nothing .blockMappingKey tokens

/-- Gives an item of a flow sequence, or its end. -/
def flowSequenceEntry (fault : Fault) (m : Machine) : List Token → Step
  | [] => .error fault
  | .key :: rest => m.give (.mappingStart {}) .flowPairKey rest
  | .flowSequenceEnd :: rest => m.complete .sequenceEnd rest
  | tokens => (m.thenDue .flowSequenceItem).node fault .flow tokens

/-- Goes on with a flow sequence behind an item. -/
def flowSequenceItem (fault : Fault) (m : Machine) : List Token → Step
  | [] => .error fault
  | .flowSequenceEnd :: rest => m.complete .sequenceEnd rest
  | .flowEntry :: rest => m.flowSequenceEntry fault rest
  | _ => .error .malformed

/-- Goes on behind the key of a mapping inside a flow sequence. -/
def flowPairValue (fault : Fault) (m : Machine) : List Token → Step
  | [] => .error fault
  | .value :: rest => m.nodeOr fault (endsFlowValue .flowSequenceEnd) .flow .flowPairEnd rest
  | tokens => m.give .nothing .flowPairEnd tokens

/-- Gives the key of a flow mapping, or its end. -/
def flowMappingEntry (fault : Fault) (m : Machine) : List Token → Step
  | [] => .error fault
  | .key :: rest => m.nodeOr fault (endsFlowKey .flowMappingEnd) .flow .flowMappingValue rest
  | .flowMappingEnd :: rest => m.complete .mappingEnd rest
  | tokens => (m.thenDue .flowMappingNoValue).node fault .flow tokens

/-- Goes on with a flow mapping behind an entry. -/
def flowMappingKey (fault : Fault) (m : Machine) : List Token → Step
  | [] => .error fault
  | .flowMappingEnd :: rest => m.complete .mappingEnd rest
  | .flowEntry :: rest => m.flowMappingEntry fault rest
  | _ => .error .malformed

/-- Goes on behind the key of a flow mapping. -/
def flowMappingValue (fault : Fault) (m : Machine) : List Token → Step
  | [] => .error fault
  | .value :: rest => m.nodeOr fault (endsFlowValue .flowMappingEnd) .flow .flowMappingKey rest
  | tokens => m.give .nothing .flowMappingKey tokens

/-- One step: the next event. `fault` is what stands behind the last token. -/
def step (fault : Fault) (m : Machine) : Step :=
  match m.due, m.tokens with
  | _, [] => .error fault
  | .streamStart, _ :: rest => m.give .streamStart .firstDocument rest
  | .firstDocument, token :: rest =>
    match token with
    | .directive _ | .documentStart | .streamEnd => m.nextDocument fault (token :: rest)
    | _ =>
      let m := { m with handles := standardHandles }
      (m.thenDue .documentEnd).give .documentStart .blockNode (token :: rest)
  | .nextDocument, tokens => m.nextDocument fault tokens
  | .documentContent, token :: rest =>
    match token with
    | .directive _ | .documentStart | .documentEnd | .streamEnd => m.complete .nothing (token :: rest)
    | _ => m.node fault .block (token :: rest)
  | .documentEnd, token :: rest =>
    m.give .documentEnd .nextDocument (if token = .documentEnd then rest else token :: rest)
  | .blockNode, tokens => m.node fault .block tokens
  | .blockSequenceStart, _ :: rest => m.blockSequenceItem fault rest
  | .blockSequenceItem, tokens => m.blockSequenceItem fault tokens
  | .indentlessItem, tokens => m.indentlessItem fault tokens
  | .blockMappingStart, _ :: rest => m.blockMappingKey fault rest
  | .blockMappingKey, tokens => m.blockMappingKey fault tokens
  | .blockMappingValue, tokens => m.blockMappingValue fault tokens
  | .flowSequenceStart, _ :: rest => m.flowSequenceEntry fault rest
  | .flowSequenceItem, tokens => m.flowSequenceItem fault tokens
  | .flowPairKey, tokens => m.nodeOr fault (endsFlowKey .flowSequenceEnd) .flow .flowPairValue tokens
  | .flowPairValue, tokens => m.flowPairValue fault tokens
  | .flowPairEnd, tokens => m.give .mappingEnd .flowSequenceItem tokens
  | .flowMappingStart, _ :: rest => m.flowMappingEntry fault rest
  | .flowMappingKey, tokens => m.flowMappingKey fault tokens
  | .flowMappingValue, tokens => m.flowMappingValue fault tokens
  | .flowMappingNoValue, tokens => m.give .nothing .flowMappingKey tokens

/-- Steps up to the end of the stream or to a fault. -/
def run (fault : Fault) : Nat → Machine → List Event × Option Fault
  | 0, _ => ([], some .malformed)
  | fuel + 1, m =>
    match m.step fault with
    | .error f => ([], some f)
    | .ok (event, none) => ([event], none)
    | .ok (event, some m) =>
      let (more, f) := run fault fuel m
      (event :: more, f)

end Machine

/-- The events of tokens, up to the first fault, and that fault; `fault` is what stands behind the last
token. -/
def eventsOf (tokens : List Token) (fault : Option Fault) : List Event × Option Fault :=
  Machine.run (fault.getD .malformed) (5 * tokens.length + 5) { due := .streamStart, tokens }

end LayeredConfig.Yaml
