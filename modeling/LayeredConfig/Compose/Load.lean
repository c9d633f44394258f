import LayeredConfig.Compose.Include
import LayeredConfig.File.Store
import LayeredConfig.Journal.Logged
import LayeredConfig.Tree.Assign
import LayeredConfig.Tree.Merge
import LayeredConfig.Yaml.Read

/-!
# Composing files

A file is a YAML text whose root may list other files under `defaults`. Its tree is made by merging the trees of
the listed files one after another, each at the root or under its key path, and the content of the file itself
last. The entry `_self_` marks a place and stands for nothing. A file that includes itself, directly or not, is
refused: `opened` holds the places of the files that are being loaded. Only files of the store can be opened, so
loading ends.
-/

namespace LayeredConfig.Compose

/-- The key that lists the includes of a file. -/
def includesKey : String := "defaults"

/-- Whether an entry stands for the file itself. -/
def isSelf : Tree → Bool
  | .string text => text == "_self_"
  | _ => false

/-- The name of the logger of this part. -/
def logger : String := "hydralite.core.config.loader"

/-- How messages show a place. -/
def placeText (place : File.Place) : String :=
  (File.Path.ofNames place).text

/-- The record of a file that is being loaded. -/
def loadingRecord (place : File.Place) : Record :=
  .debug logger s!"Loading configuration source {placeText place}"

/-- The record of an optional include that is missing. -/
def skippedRecord (file : File.Path) : Record :=
  .debug logger s!"Skipping optional include {file.text} (not found)"

/-- The tree that the content of a file holds. -/
def readContent (place : File.Place) (content : ByteArray) : Except Error Tree :=
  match File.text? content with
  | some text => Yaml.read (placeText place) text
  | none => .error .notUtf8

/-- Puts the tree of an included file where it belongs: merged at the root, merged with the node at its key
path, or added there. -/
def place (composed child : Tree) : Option KeyPath → Except Error Tree
  | none => .ok (composed.merge child)
  | some target =>
    match composed.find target with
    | some _ => .ok (composed.modify (fun node => node.merge child) target)
    | none => (composed.assign target child true).outcome

/-- The places of a store that are not opened. -/
def unopened (store : File.Store) (opened : List File.Place) : List File.Place :=
  (store.nodes.map Prod.fst).filter fun place => !opened.contains place

theorem mem_of_contentAt {store : File.Store} {place : File.Place} {content : ByteArray}
    (h : store.contentAt place = .ok content) : place ∈ store.nodes.map Prod.fst := by
  simp only [File.Store.contentAt, File.Store.node?] at h
  by_cases empty : place.isEmpty
  · simp [empty] at h
  · simp only [empty] at h
    cases found : store.nodes.lookup place with
    | some node => exact Entries.mem_keys_of_lookup found
    | none =>
      simp only [found] at h
      cases walked : store.walk [] place <;> simp [walked] at h

theorem length_unopened_lt {store : File.Store} {opened : List File.Place} {place : File.Place}
    (present : place ∈ store.nodes.map Prod.fst) (fresh : ¬opened.contains place) :
    (unopened store (place :: opened)).length < (unopened store opened).length := by
  have sub : unopened store (place :: opened)
      = (unopened store opened).filter fun other => other != place := by
    simp only [unopened, List.filter_filter]
    congr 1
    funext other
    by_cases same : other = place <;> simp [same]
  rw [sub]
  have member : place ∈ unopened store opened := by
    simpa [unopened] using ⟨by simpa using present, by simpa using fresh⟩
  have bound := List.length_filter_lt_length_iff_exists (p := fun other => other != place)
    (l := unopened store opened)
  exact bound.2 ⟨place, member, by simp⟩

mutual

/-- The tree of the file at a place, with all that it includes. -/
def load (store : File.Store) (opened : List File.Place) (place : File.Place) : Logged Tree :=
  if _fresh : opened.contains place then throw (.includeCycle (placeText place))
  else do
    Logged.record (loadingRecord place)
    match _content : store.contentAt place with
    | .error failure => throw (.sourceUnreadable (placeText place) failure)
    | .ok content =>
      match ← readContent place content with
      | .null => return .mapping []
      | .mapping entries =>
        let composed ←
          match entries.lookup includesKey with
          | none => pure (.mapping [])
          | some (.sequence items) =>
            loadIncludes store (place :: opened) (.ofNames place.dropLast) (.mapping []) items
          | some _ => throw (.includesNotSequence (placeText place))
        return composed.merge (.mapping (Entries.erase includesKey entries))
      | root => return root
termination_by ((unopened store opened).length, 0, 0)
decreasing_by
  exact Prod.Lex.left _ _ (length_unopened_lt (mem_of_contentAt _content) _fresh)

/-- Composes the files of include entries, written in a file of the directory `base`, over what is composed
already. -/
def loadIncludes (store : File.Store) (opened : List File.Place) (base : File.Path)
    (composed : Tree) : List Tree → Logged Tree
  | [] => return composed
  | entry :: rest =>
    if isSelf entry then loadIncludes store opened base composed rest
    else do
      let inclusion ← Include.parse base entry
      if store.holds inclusion.file then
        let child ← load store opened inclusion.file.names
        let composed ← place composed child inclusion.target
        loadIncludes store opened base composed rest
      else if inclusion.optional then
        Logged.record (skippedRecord inclusion.file)
        loadIncludes store opened base composed rest
      else throw (.includeAbsent inclusion.file.text)
termination_by items => ((unopened store opened).length, 1, sizeOf items)

end

/-- The tree of the file that a path leads to. -/
def file (store : File.Store) (path : String) : Logged Tree :=
  let path := File.Path.ofText path
  if path.holdsNull then throw .nullInPath else load store [] (path.resolve store.here)

/-- Merges the trees of files, one after another, over a tree. -/
def filesOver (store : File.Store) (composed : Tree) : List String → Logged Tree
  | [] => return composed
  | path :: rest => do
    let tree ← file store path
    filesOver store (composed.merge tree) rest

/-- The trees of files, merged from left to right. -/
def files (store : File.Store) (paths : List String) : Logged Tree :=
  filesOver store (.mapping []) paths

end LayeredConfig.Compose
