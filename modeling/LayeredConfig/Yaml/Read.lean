import LayeredConfig.Yaml.Document
import LayeredConfig.Yaml.Event.Grammar

/-!
# Reading a YAML text

Nodes may stand inside one another to any depth, since the walk over the events keeps its own stack of frames. A reader
that calls itself for each node has less room, and fails on texts deeper than that, which are read here.

Escapes that name surrogates are all read as one mark, `FlowScalar.surrogateMark`, so keys that differ in nothing but
surrogates are taken for one key.
-/

namespace LayeredConfig.Yaml

/-- The tree of a text, which has to hold one document at most. `source` is its name in messages. -/
def read (source : String) (text : List Char) : Except Error Tree :=
  let (tokens, fault) := tokens text
  let (events, fault) := eventsOf tokens fault
  treeOfEvents source events fault

end LayeredConfig.Yaml
