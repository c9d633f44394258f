import LayeredConfig.KeyPath.Parse
import LayeredConfig.Tree.Equality
import LayeredConfig.Yaml.Read

/-!
# Overrides

An override is a single change to a tree, written `path=value` for a node that is there and `+path=value`
for a new one. The first equals sign ends the path. The value is read as what stands behind the key of a
one-line YAML mapping, so it may be a scalar or a collection in flow style.
-/

namespace LayeredConfig

/-- A change to the node at a path; `add` tells a new node from one that is replaced. -/
structure Override where
  path : KeyPath
  value : Tree
  add : Bool
  deriving DecidableEq

namespace Override

/-- The key that the value text is read behind. -/
def valueKey : String := "value"

/-- The YAML text that holds a value text. -/
def document (text : List Char) : List Char :=
  valueKey.toList ++ ':' :: ' ' :: text ++ ['\n']

/-- Reads a value text. -/
def parseValue (text : List Char) : Except Error Tree := do
  match ← Yaml.read "<override>" (document text) with
  | .mapping entries =>
    match entries.lookup valueKey with
    | some value => .ok value
    | none => .error .overrideValueMissing
  | _ => .error .overrideNotMapping

/-- Splits a text at its first equals sign, if it has one. -/
def splitEquals : List Char → Option (List Char × List Char)
  | [] => none
  | '=' :: rest => some ([], rest)
  | c :: rest => (splitEquals rest).map fun (key, value) => (c :: key, value)

/-- Reads what follows the plus sign, if there is one; `expression` is the whole text. -/
def parseBody (expression : String) (add : Bool) (body : List Char) : Except Error Override := do
  match splitEquals body with
  | none => .error (.overrideWithoutEquals expression)
  | some ([], _) => .error (.overrideEmptyKey expression)
  | some (_, []) => .error (.overrideEmptyValue expression)
  | some (key, value) =>
    let path ← KeyPath.parse (String.ofList key)
    let value ← parseValue value
    return ⟨path, value, add⟩

/-- Reads an override. -/
def parse (expression : String) : Except Error Override :=
  match expression.toList with
  | [] => .error .emptyOverride
  | ['+'] => .error .overrideKeyMissing
  | '+' :: body => parseBody expression true body
  | body => parseBody expression false body

end Override

end LayeredConfig
