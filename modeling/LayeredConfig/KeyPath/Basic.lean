/-!
# Key paths

A key path is a list of components. Its written form separates the components by dots; a backslash stands
before each dot and each backslash that belongs to a component.
-/

namespace LayeredConfig

/-- The keys to follow from the root, outermost first. -/
abbrev KeyPath := List String

namespace KeyPath

/-- One character of a component in written form. -/
def escapeChar (c : Char) : List Char :=
  if c = '\\' ∨ c = '.' then ['\\', c] else [c]

/-- A component in written form. -/
def escape (component : List Char) : List Char :=
  component.flatMap escapeChar

/-- The written form as characters: the written components with a dot between them. -/
def renderChars (path : KeyPath) : List Char :=
  ['.'].intercalate (path.map fun component => escape component.toList)

/-- The written form of a path; the path of the root is shown as `<root>`. -/
def render (path : KeyPath) : String :=
  match path with
  | [] => "<root>"
  | _ => String.ofList path.renderChars

end KeyPath

end LayeredConfig
