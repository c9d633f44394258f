import LayeredConfig.File.Path
import LayeredConfig.KeyPath.Parse
import LayeredConfig.Text.Blank
import LayeredConfig.Tree.Basic

/-!
# Include entries

An entry of the list of includes of a file is the path of another file, or a mapping from a group to a name: the
file of that name in the directory of the group, to be placed under the key path that the group spells. A
question mark before a path or a group makes the include optional. Paths count from the directory of the
including file, and a path without an extension gets `.yaml`.
-/

namespace LayeredConfig

/-- An include: the file, the key path that its tree is placed under, if it is not merged at the root, and
whether the file may be missing. -/
structure Include where
  file : File.Path
  target : Option KeyPath
  optional : Bool
  deriving DecidableEq, Repr

namespace Include

/-- Takes the mark of an optional include off a text, and trims it. -/
def stripMark : List Char → List Char × Bool
  | '?' :: ' ' :: rest => (Text.trim rest, true)
  | '?' :: rest => (Text.trim rest, true)
  | text => (Text.trim text, false)

/-- The ending of files that are named without one. -/
def ending : String := ".yaml"

/-- The file that a path means when it is written in a file of the directory `base`. -/
def fileOf (base path : File.Path) : Except Error File.Path :=
  let extended :=
    if File.Path.hasExtension path.name then some path else path.extend? ending
  match extended with
  | some path => .ok (base.join path).normal
  | none => .error .includeUnnamed

/-- Reads an include entry of a file in the directory `base`. -/
def parse (base : File.Path) : Tree → Except Error Include
  | .string text => do
    let (path, optional) := stripMark text.toList
    if path.isEmpty then .error .emptyInclude
    else
      let file ← fileOf base (.ofText (String.ofList path))
      return ⟨file, none, optional⟩
  | .mapping [(group, .string name)] => do
    let (key, optional) := stripMark group.toList
    let target ← KeyPath.parse (String.ofList key)
    let directory := File.Path.ofText (String.ofList key)
    let file ← fileOf base (directory.join (.ofText name))
    return ⟨file, some target, optional⟩
  | .mapping [(group, value)] => .error (.includeValueKind value.kind group)
  | .mapping _ => .error .includeKeyCount
  | entry => .error (.includeKind entry.kind)

end Include

end LayeredConfig
