import LayeredConfig.Proofs.File.Paths
import LayeredConfig.Proofs.Outcome
import Mathlib.Logic.Basic

/-!
# What changes in a store

A file has a content in a store (`HasFile`). Making directories leaves every file as it is and makes none (`Grown`), and
writing or extending a file leaves the others (`HasFile.write`, `HasFile.append`). A directory that was ensured is there
(`isDirectory_of_ensureDirectory`), and what is written under a name in it stands there (`write_child`,
`put_of_write_child`).
-/

namespace LayeredConfig.File.Store

/-- A file of this content stands at a place. -/
def HasFile (store : Store) (place : Place) (content : ByteArray) : Prop :=
  store.node? place = some (.file content)

variable {store store' : Store} {place other : Place} {content : ByteArray} {node : Node} {path : Path}

theorem contentAt_eq_ok_iff : store.contentAt place = .ok content ↔ store.HasFile place content := by
  rw [contentAt, HasFile]
  cases store.node? place with
  | none => cases walked : store.walk [] place <;> simp
  | some node => cases node <;> simp

/-- Places are compared alike when they are looked up and when something is put there. -/
theorem lookup_nodes (nodes : List (Place × Node)) (place : Place) :
    nodes.lookup place = @List.lookup Place Node instBEqOfDecidableEq place nodes := by
  rw [lawful_beq_subsingleton (List.instBEq : BEq Place) instBEqOfDecidableEq]

theorem node?_put_of_ne (apart : other ≠ place) : (store.put place node).node? other = store.node? other := by
  rw [node?, node?, lookup_nodes, lookup_nodes]
  exact congrArg _ (Entries.lookup_put_of_ne apart node store.nodes)

theorem node?_put_self (below : place ≠ []) : (store.put place node).node? place = some node := by
  rw [node?, List.isEmpty_eq_false_iff.2 below, lookup_nodes]
  exact (if_neg Bool.false_ne_true).trans (Entries.lookup_put_self place node store.nodes)

theorem hasFile_put (below : place ≠ []) : (store.put place (.file content)).HasFile place content :=
  node?_put_self below

theorem HasFile.put (file : store.HasFile place content) (apart : place ≠ other) :
    (store.put other node).HasFile place content :=
  (node?_put_of_ne apart).trans file

theorem HasFile.isDirectoryAt (file : store.HasFile place content) : store.isDirectoryAt place = false := by
  rw [Store.isDirectoryAt, file]

/-! ## Following written paths -/

theorem collapse_append_of_plain {front : List String} (plain : Plain front) (atTop : Bool)
    (above names : List String) :
    Path.collapse atTop above (front ++ names) = Path.collapse atTop (front.reverse ++ above) names := by
  induction front generalizing above with
  | nil => rfl
  | cons name rest ih =>
    obtain ⟨named, plain⟩ := List.forall_mem_cons.1 plain
    rw [List.cons_append, Path.collapse_cons_of_ne named, ih plain, List.reverse_cons, List.append_assoc]
    rfl

/-- Where a path leads from the working directory is where it says. -/
theorem resolve_of_placeOf_here (plain : Plain store.here) (leads : store.placeOf path = .ok place) :
    path.resolve store.here = place := by
  rw [placeOf] at leads
  have names : path.resolve store.here = Path.collapse true [] (path.absolute store.here).names := by
    rw [Path.resolve, Path.normal, Path.isAbsolute_absolute]
  rw [names, Path.absolute, Path.join]
  split at leads
  · next absolute =>
    rw [if_pos absolute]
    exact collapse_of_walk plain_nil leads
  · next relative =>
    rw [if_neg relative]
    refine (collapse_append_of_plain plain true [] path.names).trans ?_
    rw [List.append_nil]
    exact collapse_of_walk plain leads

/-- No directory is where a file is. -/
theorem HasFile.isDirectory (plain : Plain store.here) (file : store.HasFile (path.resolve store.here) content) :
    store.isDirectory path = false := by
  rw [Store.isDirectory, nodeAt?]
  cases leads : store.placeOf path with
  | error failure => rfl
  | ok place =>
    rw [resolve_of_placeOf_here plain leads] at file
    dsimp only
    rw [file]

/-! ## Places for entries -/

/-- The place for an entry is below the directory that the path without its last name leads to. -/
theorem entryPlace_eq_ok {onDots : Failure} (found : store.entryPlace onDots path = .ok place) :
    ∃ name directory, path.names = path.parent.names ++ [name] ∧ name ≠ ".." ∧ store.placeOf path.parent = .ok directory
      ∧ store.node? directory = some .directory ∧ place = directory ++ [name] := by
  rw [entryPlace] at found
  split at found
  · cases found
  · next name last =>
    obtain ⟨directory, leads, found⟩ := Outcome.bind_eq_ok.1 found
    obtain ⟨front, whole⟩ := List.getLast?_eq_some_iff.1 last
    have names : path.names = path.parent.names ++ [name] := by
      rw [Path.parent, whole, List.dropLast_concat]
    split at found
    · cases found
    · cases found
    · next here =>
      split at found
      · cases found
      · next named =>
        cases found
        exact ⟨name, directory, names, named, leads, here, rfl⟩

/-- A path from the top without double dots is where it says. -/
theorem entryPlace_of_plain {onDots : Failure} (absolute : path.isAbsolute = true) (plain : Plain path.names)
    (found : store.entryPlace onDots path = .ok place) : place = path.names := by
  obtain ⟨name, directory, whole, -, leads, -, rfl⟩ := entryPlace_eq_ok found
  have parent : path.parent.normal.names = directory := names_normal_of_placeOf absolute leads
  rw [Path.normal_of_plain plain.dropLast] at parent
  rw [whole, parent]

/-! ## Making directories -/

/-- The store as it was, but for directories made where nothing was. -/
structure Grown (store store' : Store) : Prop where
  here : store'.here = store.here
  files : ∀ {place content}, store.HasFile place content → store'.HasFile place content
  olds : ∀ {place content}, store'.HasFile place content → store.HasFile place content

theorem Grown.refl (store : Store) : store.Grown store :=
  ⟨rfl, id, id⟩

theorem Grown.trans {store'' : Store} (first : store.Grown store') (second : store'.Grown store'') :
    store.Grown store'' :=
  ⟨second.here.trans first.here, fun file => second.files (first.files file), fun file => first.olds (second.olds file)⟩

theorem grown_of_makeDirectory (makes : store.makeDirectory path = .ok store') : store.Grown store' := by
  obtain ⟨place, found, makes⟩ := Outcome.bind_eq_ok.1 makes
  obtain ⟨name, directory, -, -, -, -, below⟩ := entryPlace_eq_ok found
  split at makes
  · cases makes
  · next absent =>
    cases makes
    refine ⟨rfl, fun {other content} file => file.put ?_, fun {other content} file => ?_⟩
    · rintro rfl
      rw [HasFile, absent] at file
      cases file
    · rw [HasFile] at file ⊢
      by_cases same : other = place
      · subst same
        rw [node?_put_self (by simp [below])] at file
        cases file
      · rwa [node?_put_of_ne same] at file

theorem grown_ensureEntry (store : Store) (path : Path) : store.Grown (store.ensureEntry path).1 := by
  rw [ensureEntry]
  split
  · next makes => exact grown_of_makeDirectory makes
  · exact .refl store

theorem grown_ensureNames (store : Store) (root : Root) (names : List String) :
    store.Grown (store.ensureNames root names).1 := by
  induction names with
  | nil => exact grown_ensureEntry store _
  | cons name above ih =>
    rw [ensureNames]
    split
    · split
      · next made =>
        rw [made] at ih
        exact ih.trans (grown_ensureEntry _ _)
      · next failed =>
        rw [failed] at ih
        exact ih
    · exact grown_ensureEntry store _

theorem grown_ensureDirectory (store : Store) (path : Path) : store.Grown (store.ensureDirectory path).1 :=
  grown_ensureNames store path.root path.names.reverse

/-! ## Writing files -/

/-- Writing leaves the working directory. -/
theorem here_of_write (writes : store.write path content = .ok store') : store'.here = store.here := by
  obtain ⟨target, -, writes⟩ := Outcome.bind_eq_ok.1 writes
  split at writes
  · cases writes
  · cases writes
    rfl

theorem put_of_write (absolute : path.isAbsolute = true) (plain : Plain path.names)
    (writes : store.write path content = .ok store') :
    path.names ≠ [] ∧ store' = store.put path.names (.file content) := by
  obtain ⟨place, found, writes⟩ := Outcome.bind_eq_ok.1 writes
  have same := entryPlace_of_plain absolute plain found
  subst same
  split at writes
  · cases writes
  · cases writes
    obtain ⟨name, -, whole, -⟩ := entryPlace_eq_ok found
    exact ⟨by simp [whole], rfl⟩

theorem HasFile.write {written : ByteArray} (file : store.HasFile place content) (absolute : path.isAbsolute = true)
    (plain : Plain path.names) (apart : place ≠ path.names) (writes : store.write path written = .ok store') :
    store'.HasFile place content := by
  obtain ⟨-, rfl⟩ := put_of_write absolute plain writes
  exact file.put apart

theorem HasFile.append (file : store.HasFile place content) (apart : place ≠ other) (added : ByteArray) :
    (store.append other added).HasFile place content := by
  rw [Store.append]
  split
  · exact file.put apart
  · exact file

/-! ## Where files can be written -/

theorem ne_of_directory (here : store.node? place = some .directory) (free : store.isDirectoryAt other = false) :
    place ≠ other := by
  rintro rfl
  rw [isDirectoryAt, here] at free
  cases free

/-- Putting something where no directory is leaves the ways through directories. -/
theorem walk_put {names : List String} {start : Place} (free : store.isDirectoryAt other = false)
    (walks : store.walk start names = .ok place) : (store.put other node).walk start names = .ok place := by
  induction names generalizing start with
  | nil => exact walks
  | cons name rest ih =>
    rw [walk] at walks ⊢
    split at walks
    · cases walks
    · cases walks
    · next here =>
      rw [node?_put_of_ne (ne_of_directory here free), here]
      exact ih walks

theorem isDirectory_eq_true_iff :
    store.isDirectory path = true ↔ ∃ place, store.placeOf path = .ok place ∧ store.node? place = some .directory := by
  rw [isDirectory, nodeAt?]
  cases store.placeOf path with
  | error failure => simp
  | ok place =>
    cases found : store.node? place with
    | none => simp [found]
    | some node => cases node <;> simp [found]

theorem isDirectory_put (free : store.isDirectoryAt other = false) (isDirectory : store.isDirectory path = true) :
    (store.put other node).isDirectory path = true := by
  obtain ⟨place, leads, here⟩ := isDirectory_eq_true_iff.1 isDirectory
  refine isDirectory_eq_true_iff.2 ⟨place, walk_put free leads, ?_⟩
  rw [node?_put_of_ne (ne_of_directory here free), here]

theorem walk_append {front rest : List String} {start : Place} :
    store.walk start (front ++ rest) = store.walk start front >>= fun place => store.walk place rest := by
  induction front generalizing start with
  | nil => rfl
  | cons name front ih =>
    rw [List.cons_append, walk, walk]
    split
    · rfl
    · rfl
    · exact ih

theorem placeOf_of_entryPlace {onDots : Failure} (found : store.entryPlace onDots path = .ok place) :
    store.placeOf path = .ok place := by
  obtain ⟨name, directory, whole, named, leads, here, rfl⟩ := entryPlace_eq_ok found
  have start : store.placeOf path.parent
      = store.walk (if path.isAbsolute then [] else store.here) path.parent.names := rfl
  rw [placeOf, whole, walk_append, ← start, leads]
  show store.walk directory [name] = _
  rw [walk, here]
  exact congrArg Except.ok (if_neg named)

/-- A directory that was made or was there is there. -/
theorem isDirectory_of_ensureEntry (ensured : store.ensureEntry path = (store', none)) :
    store'.isDirectory path = true := by
  rw [ensureEntry] at ensured
  split at ensured
  · next made makes =>
    cases ensured
    obtain ⟨place, found, makes⟩ := Outcome.bind_eq_ok.1 makes
    obtain ⟨name, directory, -, -, -, -, below⟩ := entryPlace_eq_ok found
    split at makes
    · cases makes
    · next absent =>
      cases makes
      have free : store.isDirectoryAt place = false := by rw [isDirectoryAt, absent]
      refine isDirectory_eq_true_iff.2 ⟨place, walk_put free (placeOf_of_entryPlace found), node?_put_self ?_⟩
      simp [below]
  · split at ensured
    · next isThere =>
      cases ensured
      exact (Bool.and_eq_true_iff.1 isThere).2
    · cases ensured

theorem isDirectory_of_ensureNames {root : Root} {names : List String}
    (ensured : store.ensureNames root names = (store', none)) :
    store'.isDirectory ⟨root, names.reverse⟩ = true := by
  cases names with
  | nil => exact isDirectory_of_ensureEntry ensured
  | cons name above =>
    rw [ensureNames] at ensured
    split at ensured
    · split at ensured
      · exact isDirectory_of_ensureEntry ensured
      · cases ensured
    · exact isDirectory_of_ensureEntry ensured

/-- A directory that was ensured is there. -/
theorem isDirectory_of_ensureDirectory (ensured : store.ensureDirectory path = (store', none)) :
    store'.isDirectory path = true := by
  have there := isDirectory_of_ensureNames ensured
  rwa [List.reverse_reverse] at there

/-- The place for an entry of a directory. -/
theorem entryPlace_child {name : String} {onDots : Failure} (leads : store.placeOf path = .ok place)
    (here : store.node? place = some .directory) (named : name ≠ "..") :
    store.entryPlace onDots (path.child name) = .ok (place ++ [name]) := by
  have parent : (path.child name).parent = path := by
    rw [Path.parent, Path.child, List.dropLast_concat]
  rw [entryPlace, parent, leads]
  simp only [Path.child, List.getLast?_concat, bind, Except.bind, here, if_neg named]

/-- A file can be written in a directory under every name that is no directory there. -/
theorem write_child {name : String} (leads : store.placeOf path = .ok place) (here : store.node? place = some .directory)
    (named : name ≠ "..") (free : store.isDirectoryAt (place ++ [name]) = false) (content : ByteArray) :
    store.write (path.child name) content = .ok (store.put (place ++ [name]) (.file content)) := by
  rw [write, entryPlace_child leads here named]
  show (if _ then _ else _) = _
  rw [free]
  rfl

/-- What is written under a name in a directory stands there, where no directory was. -/
theorem put_of_write_child {name : String} (leads : store.placeOf path = .ok place)
    (here : store.node? place = some .directory) (named : name ≠ "..")
    (writes : store.write (path.child name) content = .ok store') :
    store.isDirectoryAt (place ++ [name]) = false ∧ store' = store.put (place ++ [name]) (.file content) := by
  obtain ⟨target, found, writes⟩ := Outcome.bind_eq_ok.1 writes
  rw [entryPlace_child leads here named] at found
  cases found
  split at writes
  · cases writes
  · next free =>
    cases writes
    exact ⟨Bool.not_eq_true _ ▸ free, rfl⟩

end LayeredConfig.File.Store
