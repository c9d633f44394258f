import LayeredConfig.Yaml.Token

/-!
# Events

What a YAML text says, in order: the bounds of the stream and of its documents, scalars, aliases, and the
starts and ends of sequences and mappings.
-/

namespace LayeredConfig.Yaml

/-- The properties of a node: its anchor and its tag, written out. -/
structure Properties where
  anchor : Option (List Char) := none
  tag : Option (List Char) := none
  deriving DecidableEq, Repr

/-- An event. -/
inductive Event where
  | streamStart
  | streamEnd
  | documentStart
  | documentEnd
  | alias (name : List Char)
  | scalar (properties : Properties) (text : List Char) (style : Style)
  | sequenceStart (properties : Properties)
  | sequenceEnd
  | mappingStart (properties : Properties)
  | mappingEnd
  deriving DecidableEq, Repr

/-- The name of the sort of an event, as messages show it. -/
def Event.name : Event → String
  | .streamStart => "StreamStartEvent"
  | .streamEnd => "StreamEndEvent"
  | .documentStart => "DocumentStartEvent"
  | .documentEnd => "DocumentEndEvent"
  | .alias _ => "AliasEvent"
  | .scalar .. => "ScalarEvent"
  | .sequenceStart _ => "SequenceStartEvent"
  | .sequenceEnd => "SequenceEndEvent"
  | .mappingStart _ => "MappingStartEvent"
  | .mappingEnd => "MappingEndEvent"

/-- The node that stands where nothing is written. -/
def Event.nothing : Event := .scalar {} [] .plain

end LayeredConfig.Yaml
