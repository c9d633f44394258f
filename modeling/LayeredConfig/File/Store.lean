import LayeredConfig.File.Failure
import LayeredConfig.File.Path
import LayeredConfig.Text.Lines
import LayeredConfig.Tree.Entries

/-!
# File store

A store holds directories and files by the names that lead to them from the top, and knows the working
directory. Paths are followed name by name, double dots leading back to the directory that was come through.

There are no symbolic links in a store: what stands at a place is a directory or a file, so that the names in
order, without double dots, tell one place from another. Nobody else changes a store while a run uses it, and
whoever runs may read and write every file.
-/

namespace LayeredConfig.File

/-- What stands at a place of a store. -/
inductive Node where
  | directory
  | file (content : ByteArray)

/-- The names that lead from the top to a place. -/
abbrev Place := List String

/-- The directories and files below the top, and the place of the working directory. -/
structure Store where
  nodes : List (Place × Node)
  here : Place

namespace Store

/-- What stands at a place; the top is a directory. -/
def node? (store : Store) (place : Place) : Option Node :=
  if place.isEmpty then some .directory else store.nodes.lookup place

/-- The store with something put at a place. -/
def put (store : Store) (place : Place) (node : Node) : Store :=
  ⟨Entries.put place node store.nodes, store.here⟩

/-- Whether a directory stands at a place. -/
def isDirectoryAt (store : Store) (place : Place) : Bool :=
  match store.node? place with
  | some .directory => true
  | _ => false

/-! ## Following paths -/

/-- Follows names from a place. Each step needs a directory to start from, and the place that is reached may be
empty. -/
def walk (store : Store) (place : Place) : List String → Except Failure Place
  | [] => .ok place
  | name :: rest =>
    match store.node? place with
    | none => .error .noEntry
    | some (.file _) => .error .notDirectory
    | some .directory => walk store (if name = ".." then place.dropLast else place ++ [name]) rest

/-- The content of the file at a place. -/
def contentAt (store : Store) (place : Place) : Except Failure ByteArray :=
  match store.node? place with
  | some (.file content) => .ok content
  | some .directory => .error .isDirectory
  | none =>
    match store.walk [] place with
    | .ok _ => .error .noEntry
    | .error failure => .error failure

/-- The place that a path leads to. -/
def placeOf (store : Store) (path : Path) : Except Failure Place :=
  store.walk (if path.isAbsolute then [] else store.here) path.names

/-- What stands where a path leads. -/
def nodeAt? (store : Store) (path : Path) : Option Node :=
  match store.placeOf path with
  | .ok place => store.node? place
  | .error _ => none

/-- Whether something stands where a path leads. -/
def holds (store : Store) (path : Path) : Bool :=
  (store.nodeAt? path).isSome

/-- Whether a path leads to a directory. -/
def isDirectory (store : Store) (path : Path) : Bool :=
  match store.nodeAt? path with
  | some .directory => true
  | _ => false

/-- The place for a new entry: its directory has to be there, and `onDots` is the failure of a path that names
no entry of its own. -/
def entryPlace (store : Store) (onDots : Failure) (path : Path) : Except Failure Place :=
  match path.names.getLast? with
  | none => .error onDots
  | some name => do
    let directory ← store.placeOf path.parent
    match store.node? directory with
    | none => .error .noEntry
    | some (.file _) => .error .notDirectory
    | some .directory => if name = ".." then .error onDots else .ok (directory ++ [name])

/-! ## Changing the store -/

/-- Gives the file where a path leads this content, making the file if there is none. -/
def write (store : Store) (path : Path) (content : ByteArray) : Except Failure Store := do
  let place ← store.entryPlace .isDirectory path
  if store.isDirectoryAt place then .error .isDirectory
  else return store.put place (.file content)

/-- Adds to the end of the file at a place. -/
def append (store : Store) (place : Place) (content : ByteArray) : Store :=
  match store.node? place with
  | some (.file old) => store.put place (.file (old ++ content))
  | _ => store

/-- Makes a directory in a directory that is there. -/
def makeDirectory (store : Store) (path : Path) : Except Failure Store := do
  let place ← store.entryPlace .alreadyExists path
  match store.node? place with
  | some _ => .error .alreadyExists
  | none => return store.put place .directory

/-- Makes a directory unless it is there. Gives the store afterwards and the failure. -/
def ensureEntry (store : Store) (path : Path) : Store × Option Failure :=
  match store.makeDirectory path with
  | .ok store => (store, none)
  | .error failure =>
    (store, if failure != .noEntry && store.isDirectory path then none else some failure)

/-- Makes the directory of names, the last of them first, and the directories on the way. -/
def ensureNames (store : Store) (root : Root) : List String → Store × Option Failure
  | [] => store.ensureEntry ⟨root, []⟩
  | name :: above =>
    let path : Path := ⟨root, (name :: above).reverse⟩
    match store.ensureEntry path with
    | (_, some .noEntry) =>
      match store.ensureNames root above with
      | (store, none) => store.ensureEntry path
      | (store, some failure) => (store, some failure)
    | done => done

/-- Makes a directory and the directories on the way to it, unless they are there. Gives the store afterwards,
which keeps what was made before a failure, and the failure. -/
def ensureDirectory (store : Store) (path : Path) : Store × Option Failure :=
  store.ensureNames path.root path.names.reverse

end Store

/-! ## Text of files -/

/-- The text of a content that is UTF-8, line ends read as line feeds. -/
def text? (content : ByteArray) : Option (List Char) :=
  (String.fromUTF8? content).map fun text => Text.foldReturns text.toList

/-- The content that holds a text. -/
def contentOf (text : List Char) : ByteArray :=
  (String.ofList text).toUTF8

end LayeredConfig.File
