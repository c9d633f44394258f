/-!
# File paths

A path is a root and the names to follow from it. Written paths are split at slashes; empty names and single
dots mean nothing and are dropped, double dots are kept. A path that begins with exactly two slashes has a root of
its own kind.
-/

namespace LayeredConfig.File

/-- Where a path starts. -/
inductive Root where
  /-- At the working directory. -/
  | here
  /-- At the top. -/
  | top
  /-- At the top, written with two slashes. -/
  | doubleTop
  deriving DecidableEq, Repr

/-- How a root is written. -/
def Root.text : Root → String
  | .here => ""
  | .top => "/"
  | .doubleTop => "//"

/-- A path. -/
structure Path where
  root : Root
  names : List String
  deriving DecidableEq, Repr

namespace Path

/-- The parts of a text between slashes. -/
def splitSlashes : List Char → List (List Char)
  | [] => [[]]
  | '/' :: rest => [] :: splitSlashes rest
  | c :: rest =>
    match splitSlashes rest with
    | [] => [[c]]
    | part :: parts => (c :: part) :: parts

/-- The root that a written path starts at. -/
def rootOf : List Char → Root
  | '/' :: '/' :: '/' :: _ => .top
  | '/' :: '/' :: _ => .doubleTop
  | '/' :: _ => .top
  | _ => .here

/-- Whether a part of a written path is a name. -/
def isName (part : List Char) : Bool :=
  part != [] && part != ['.']

/-- Reads a written path. -/
def ofText (text : String) : Path :=
  let chars := text.toList
  ⟨rootOf chars, ((splitSlashes chars).filter isName).map String.ofList⟩

/-- The written form of a path; the working directory is a dot. -/
def text (path : Path) : String :=
  match path.root, path.names with
  | .here, [] => "."
  | root, names => root.text ++ "/".intercalate names

/-- Whether a path starts at the top. -/
def isAbsolute (path : Path) : Bool :=
  path.root != .here

/-- Whether a name of a path holds a null character, as no file or directory can be named. -/
def holdsNull (path : Path) : Bool :=
  path.names.any (·.contains '\x00')

/-- Follows one path and then another, which counts alone if it starts at the top. -/
def join (base path : Path) : Path :=
  if path.isAbsolute then path else ⟨base.root, base.names ++ path.names⟩

/-- The path of an entry of a directory. -/
def child (directory : Path) (name : String) : Path :=
  ⟨directory.root, directory.names ++ [name]⟩

/-- The path without its last name. -/
def parent (path : Path) : Path :=
  ⟨path.root, path.names.dropLast⟩

/-- The last name of a path, or nothing. -/
def name (path : Path) : String :=
  path.names.getLast?.getD ""

/-- Whether a name has an extension: a dot that neither begins nor ends it, with no dot after it. -/
def hasExtension (name : String) : Bool :=
  let afterDot := name.toList.reverse.takeWhile (· != '.')
  afterDot.length != 0 && afterDot.length + 1 < name.length

/-- The path with text added to its last name; a path without a name has none to extend. -/
def extend? (path : Path) (ending : String) : Option Path :=
  match path.names.getLast? with
  | some name => some ⟨path.root, path.names.dropLast ++ [name ++ ending]⟩
  | none => none

/-- Drops double dots together with the names before them, the last of which stands first in `above`. At the
top there is nothing above; elsewhere double dots without a name before them are kept. -/
def collapse (atTop : Bool) (above : List String) : List String → List String
  | [] => above.reverse
  | name :: rest =>
    if name = ".." then
      match above with
      | [] => collapse atTop (if atTop then [] else [name]) rest
      | last :: others =>
        if last = ".." then collapse atTop (name :: above) rest else collapse atTop others rest
    else collapse atTop (name :: above) rest

/-- The path with its double dots worked out by the names alone. -/
def normal (path : Path) : Path :=
  ⟨path.root, collapse path.isAbsolute [] path.names⟩

/-- The path as seen from the top, where `here` is the working directory. -/
def absolute (here : List String) (path : Path) : Path :=
  join ⟨.top, here⟩ path

/-- The names that lead from the top to where a path leads. -/
def resolve (here : List String) (path : Path) : List String :=
  (path.absolute here).normal.names

/-- The path of the names that lead from the top to a place. -/
def ofNames (names : List String) : Path :=
  ⟨.top, names⟩

end Path

end LayeredConfig.File
