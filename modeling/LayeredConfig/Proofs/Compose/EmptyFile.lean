import LayeredConfig.Proofs.Compose.Cycles
import LayeredConfig.Proofs.Compose.Single
import LayeredConfig.Proofs.File.Stores
import LayeredConfig.Proofs.Run.Regular
import LayeredConfig.Proofs.Yaml.EmptyText

/-!
# Including a file without content

A file without content and without document markers is an empty mapping, and an entry for it changes nothing where a file
composes without the entry: what is composed stays the same, or is an empty mapping in place of something that is no
mapping and that the next mapping replaces anyway (`Cleared`). A start marker makes the same file the empty string, and an
entry for it drops all that stands before it.
-/

namespace LayeredConfig.Compose

/-! ## A file with another content -/

/-- Two stores that differ at most in what the file at a place holds. -/
structure SameBut (place : File.Place) (store store' : File.Store) : Prop where
  here : store'.here = store.here
  contentAt : ∀ other, other ≠ place → store'.contentAt other = store.contentAt other
  holds : ∀ path, store'.holds path = store.holds path

section

variable {store store' : File.Store} {place other : File.Place} {content content' : ByteArray}

theorem node?_put_file (store : File.Store) (place : File.Place) (content content' : ByteArray)
    (names : File.Place) :
    (store.put place (.file content)).node? names = (store.put place (.file content')).node? names
      ∨ ((store.put place (.file content)).node? names = some (.file content)
        ∧ (store.put place (.file content')).node? names = some (.file content')) := by
  by_cases same : names = place
  · subst same
    by_cases top : names = []
    · subst top
      exact Or.inl rfl
    · exact Or.inr ⟨File.Store.node?_put_self top, File.Store.node?_put_self top⟩
  · exact Or.inl ((File.Store.node?_put_of_ne same).trans (File.Store.node?_put_of_ne same).symm)

theorem walk_put_file (start : File.Place) (names : List String) :
    (store.put place (.file content)).walk start names = (store.put place (.file content')).walk start names := by
  induction names generalizing start with
  | nil => rfl
  | cons name rest ih =>
    rw [File.Store.walk, File.Store.walk]
    rcases node?_put_file store place content content' start with same | ⟨same, same'⟩
    · rw [same]
      cases (store.put place (.file content')).node? start with
      | none => rfl
      | some node =>
        cases node with
        | file => rfl
        | directory => exact ih _
    · rw [same, same']

/-- Giving a file another content changes nothing else. -/
theorem sameBut_put (store : File.Store) (place : File.Place) (content content' : ByteArray) :
    SameBut place (store.put place (.file content)) (store.put place (.file content')) := by
  refine ⟨rfl, fun other apart => ?_, fun path => ?_⟩
  · rw [File.Store.contentAt, File.Store.contentAt, File.Store.node?_put_of_ne apart,
      File.Store.node?_put_of_ne apart, walk_put_file]
  · have leads : (store.put place (.file content')).placeOf path = (store.put place (.file content)).placeOf path :=
      walk_put_file _ _
    rw [File.Store.holds, File.Store.holds, File.Store.nodeAt?, File.Store.nodeAt?, leads]
    cases (store.put place (.file content)).placeOf path with
    | error failure => rfl
    | ok other =>
      dsimp only
      rcases node?_put_file store place content content' other with same | ⟨same, same'⟩
      · rw [same]
      · rw [same, same']
        rfl

theorem addEntry_sameBut (same : SameBut place store store') (child : File.Place → Except Error Tree)
    (base : File.Path) : addEntry store' child base = addEntry store child base := by
  funext composed entry
  rw [addEntry, addEntry]
  simp only [same.holds]

theorem composition_sameBut (same : SameBut place store store') (apart : other ≠ place)
    {child child' : File.Place → Except Error Tree}
    (agree : ∀ content, store.contentAt other = .ok content → child' = child) :
    composition store' child' other = composition store child other := by
  rw [composition, composition, same.contentAt other apart]
  cases present : store.contentAt other with
  | error failure => rfl
  | ok content =>
    obtain rfl := agree content present
    simp only [included, addEntry_sameBut same]

/-- While the file is open, no load looks into it. -/
theorem load_sameBut (same : SameBut place store store') {opened : List File.Place} (member : place ∈ opened)
    (other : File.Place) : (load store' opened other).outcome = (load store opened other).outcome := by
  rw [outcome_load, outcome_load]
  split
  · rfl
  · next fresh =>
    have apart : other ≠ place := fun same => fresh (List.contains_iff_mem.2 (same ▸ member))
    refine composition_sameBut same apart fun content present => funext fun inner => ?_
    have shorter := length_unopened_lt (mem_of_contentAt present) fresh
    exact load_sameBut same (List.mem_cons_of_mem _ member) inner
termination_by (unopened store opened).length

end

/-! ## What is composed with an empty mapping in it -/

/-- What is composed is the same, or an empty mapping stands for something that is no mapping. -/
def Cleared (composed composed' : Tree) : Prop :=
  composed' = composed ∨ composed.isMapping = false ∧ composed' = .mapping []

namespace Cleared

variable {composed composed' above result : Tree}

theorem merge_empty (composed : Tree) : Cleared composed (composed.merge (.mapping [])) := by
  cases composed with
  | mapping entries => exact Or.inl rfl
  | null | bool | int | double | string | sequence => exact Or.inr ⟨rfl, rfl⟩

/-- What is laid over both gives the same. -/
theorem merge (cleared : Cleared composed composed') (regular : above.Regular) :
    composed'.merge above = composed.merge above := by
  rcases cleared with rfl | ⟨noMapping, rfl⟩
  · rfl
  · cases above with
    | mapping entries =>
      have laid : composed.merge (.mapping entries) = .mapping entries := by
        cases composed with
        | mapping => cases noMapping
        | null | bool | int | double | string | sequence => rfl
      rw [laid, Tree.empty_merge regular.hasDistinctKeys.1]
    | null | bool | int | double | string | sequence => rfl

theorem place (cleared : Cleared composed composed') (regular : above.Regular) {target : Option KeyPath}
    (placed : Compose.place composed above target = .ok result) : Compose.place composed' above target = .ok result := by
  rcases cleared with rfl | ⟨noMapping, rfl⟩
  · exact placed
  · have merged := merge (Or.inr ⟨noMapping, rfl⟩) regular
    cases target with
    | none =>
      cases placed
      exact congrArg Except.ok merged
    | some path =>
      cases path with
      | nil =>
        rw [Compose.place, Tree.find_nil] at placed ⊢
        cases placed
        exact congrArg Except.ok merged
      | cons key path =>
        have absent : composed.find (key :: path) = none := by
          cases composed with
          | mapping => cases noMapping
          | null | bool | int | double | string | sequence => rfl
        rw [Compose.place, absent] at placed
        show ((Tree.mapping []).assign (key :: path) above true).outcome = _
        cases composed with
        | mapping => cases noMapping
        | null => exact placed
        | bool | int | double | string | sequence => cases placed

theorem addEntry {store : File.Store} {child : File.Place → Except Error Tree} {base : File.Path} {entry : Tree}
    (regular : ∀ other tree, child other = .ok tree → tree.Regular) (cleared : Cleared composed composed')
    (adds : Compose.addEntry store child base composed entry = .ok result) :
    ∃ result', Compose.addEntry store child base composed' entry = .ok result' ∧ Cleared result result' := by
  rw [Compose.addEntry] at adds ⊢
  split at adds
  · cases adds
    exact ⟨composed', by rw [if_pos ‹_›]; rfl, cleared⟩
  · next notSelf =>
    rw [if_neg notSelf]
    obtain ⟨inclusion, parses, adds⟩ := Outcome.bind_eq_ok.1 adds
    rw [parses]
    show ∃ result', (if store.holds inclusion.file = true then _ else _) = _ ∧ _
    split at adds
    · next held =>
      obtain ⟨tree, loads, placed⟩ := Outcome.bind_eq_ok.1 adds
      rw [Outcome.ofExcept_eq] at placed
      refine ⟨result, ?_, Or.inl rfl⟩
      rw [if_pos held, loads]
      exact (Outcome.ofExcept_eq _).trans (cleared.place (regular _ _ loads) placed)
    · next missing =>
      rw [if_neg missing]
      split at adds
      · next optional =>
        cases adds
        exact ⟨composed', by rw [if_pos optional]; rfl, cleared⟩
      · cases adds

end Cleared

/-! ## Files that list entries -/

/-- A content of the file at a place lists these entries, and this stands beside them. -/
def Lists (place : File.Place) (content : ByteArray) (items : List Tree) (beside : List (String × Tree)) : Prop :=
  ∃ entries, readContent place content = .ok (.mapping entries)
    ∧ (entries.lookup includesKey = some (.sequence items) ∨ entries.lookup includesKey = none ∧ items = [])
    ∧ Entries.erase includesKey entries = beside

/-- An entry in the file at `place` that is to be merged at the root leads to the file at `target`. -/
def LeadsTo (store : File.Store) (place target : File.Place) (entry : Tree) : Prop :=
  ∃ inclusion, isSelf entry = false ∧ Include.parse (.ofNames place.dropLast) entry = .ok inclusion
    ∧ inclusion.target = none ∧ store.holds inclusion.file = true ∧ inclusion.file.names = target

/-- Between two contents of the file at `place`, one that lists an entry more and one that does not. -/
structure AddsEntry (store : File.Store) (place target : File.Place) (before after : ByteArray) (front : List Tree)
    (entry : Tree) (back : List Tree) (beside : List (String × Tree)) : Prop where
  without : Lists place before (front ++ back) beside
  listed : Lists place after (front ++ entry :: back) beside
  leads : LeadsTo (store.put place (.file after)) place target entry

/-- The markers that a text of one document may have. -/
inductive DocumentMarks : List Yaml.Token → Prop
  | none : DocumentMarks []
  | start : DocumentMarks [.documentStart]
  | both : DocumentMarks [.documentStart, .documentEnd]
  | stop : DocumentMarks [.documentEnd]

/-- The file at a place is a document without content: it has only spaces, comments and these markers in it. -/
def IsEmptyFile (store : File.Store) (place : File.Place) (marks : List Yaml.Token) : Prop :=
  DocumentMarks marks ∧ ∃ content text, store.contentAt place = .ok content ∧ File.text? content = some text
    ∧ text.all Yaml.isPrintable = true ∧ Yaml.EmptyText marks text

/-- What a document without content is read as, by its markers. -/
def emptyRoot (source : String) : List Yaml.Token → Except Error Tree
  | [] => .ok .null
  | .documentStart :: _ => .ok (.string "")
  | _ => .error (.malformed source)

/-- What a file without content is composed to, by its markers. -/
def emptyTree (source : String) : List Yaml.Token → Except Error Tree
  | [] => .ok (.mapping [])
  | marks => emptyRoot source marks

section

variable {store : File.Store} {place target : File.Place} {content : ByteArray} {items : List Tree}
  {beside : List (String × Tree)} {marks : List Yaml.Token} {opened : List File.Place} {entry composed tree : Tree}
  {child : File.Place → Except Error Tree}

/-- A file that lists entries is composed of them, with what stands beside them last. -/
theorem load_of_lists (present : store.contentAt place = .ok content) (lists : Lists place content items beside) :
    (load store [] place).outcome = (do
      let composed ← items.foldlM
        (addEntry store (fun other => (load store [place] other).outcome) (.ofNames place.dropLast)) (.mapping [])
      pure (composed.merge (.mapping beside))) := by
  obtain ⟨entries, root, listed, rfl⟩ := lists
  rw [outcome_load, if_neg (by simp), composition_of_root present root, included]
  rcases listed with listed | ⟨listed, rfl⟩
  · rw [listed]
  · rw [listed]
    rfl

theorem Lists.regular (lists : Lists place content items beside) : (Tree.mapping beside).Regular := by
  obtain ⟨entries, root, -, rfl⟩ := lists
  exact (regular_readContent root).erase includesKey

/-- An entry that leads to a file lays the tree of that file over what is composed. -/
theorem LeadsTo.addEntry (leads : LeadsTo store place target entry) (loads : child target = .ok tree)
    (composed : Tree) :
    Compose.addEntry store child (.ofNames place.dropLast) composed entry = .ok (composed.merge tree) := by
  obtain ⟨inclusion, notSelf, parses, root, held, rfl⟩ := leads
  rw [addEntry_of_held notSelf parses held, loads, root]
  rfl

theorem IsEmptyFile.root (empty : IsEmptyFile store place marks) :
    ∃ content, store.contentAt place = .ok content
      ∧ readContent place content = emptyRoot (placeText place) marks := by
  obtain ⟨marks, content, text, present, decodes, printable, empty⟩ := empty
  refine ⟨content, present, ?_⟩
  rw [readContent, decodes]
  cases marks with
  | none => exact empty.read_unmarked printable _
  | start => exact empty.read_started (Or.inl rfl) printable _
  | both => exact empty.read_started (Or.inr rfl) printable _
  | stop => exact empty.read_stopped printable _

theorem IsEmptyFile.load (empty : IsEmptyFile store place marks) (fresh : place ∉ opened) :
    (Compose.load store opened place).outcome = emptyTree (placeText place) marks := by
  obtain ⟨content, present, root⟩ := empty.root
  rw [outcome_load, if_neg (mt List.contains_iff_mem.1 fresh), composition, present]
  dsimp only
  rw [root]
  cases empty.1 <;> rfl

/-- A file that lists entries is not one without content. -/
theorem IsEmptyFile.ne (empty : IsEmptyFile store target marks) (present : store.contentAt place = .ok content)
    (lists : Lists place content items beside) : target ≠ place := by
  rintro rfl
  obtain ⟨content', present', root'⟩ := empty.root
  cases present.symm.trans present'
  obtain ⟨entries, root, -⟩ := lists
  rw [root] at root'
  cases empty.1 <;> cases root'

end

/-! ## Naming a file without content -/

section

variable {store : File.Store} {path : String} {place target : File.Place} {before after content : ByteArray}
  {front back : List Tree} {beside : List (String × Tree)} {entry tree : Tree} {marks : List Yaml.Token}

theorem contentAt_put (below : place ≠ []) : (store.put place (.file content)).contentAt place = .ok content :=
  File.Store.contentAt_eq_ok_iff.2 (File.Store.hasFile_put below)

/-- The top is a directory, so that no load there succeeds. -/
theorem below_of_load (works : (load store [] place).outcome = .ok tree) : place ≠ [] := by
  rintro rfl
  have top : store.contentAt [] = .error .isDirectory := rfl
  rw [outcome_load, if_neg (by simp), composition, top] at works
  cases works

/-- One step of composing a file that is put in a store does not depend on what it holds. -/
theorem addEntry_put (store : File.Store) (place : File.Place) (content content' : ByteArray) :
    addEntry (store.put place (.file content'))
        (fun other => (load (store.put place (.file content')) [place] other).outcome)
      = addEntry (store.put place (.file content))
        (fun other => (load (store.put place (.file content)) [place] other).outcome) := by
  have same := sameBut_put store place content content'
  funext base
  rw [addEntry_sameBut same]
  congr 1
  funext other
  exact load_sameBut same (List.mem_singleton_self place) other

/-- The entries of a file that is put in a store are composed by one step, whatever the file lists. -/
theorem load_put (below : place ≠ []) (content : ByteArray) {items : List Tree}
    (lists : Lists place after items beside) :
    (load (store.put place (.file after)) [] place).outcome = (do
      let composed ← items.foldlM (addEntry (store.put place (.file content))
        (fun other => (load (store.put place (.file content)) [place] other).outcome) (.ofNames place.dropLast))
        (.mapping [])
      pure (composed.merge (.mapping beside))) := by
  rw [load_of_lists (contentAt_put below) lists, addEntry_put store place content after]

/-- An entry for an empty mapping changes nothing where a file composes without it. -/
theorem load_of_added (below : place ≠ []) (lists : Lists place before (front ++ back) beside)
    (lists' : Lists place after (front ++ entry :: back) beside)
    (leads : LeadsTo (store.put place (.file after)) place target entry)
    (empty : (load (store.put place (.file after)) [place] target).outcome = .ok (.mapping []))
    (works : (load (store.put place (.file before)) [] place).outcome = .ok tree) :
    (load (store.put place (.file after)) [] place).outcome = .ok tree := by
  rw [load_put below after lists] at works
  rw [load_put below after lists']
  obtain ⟨composed, run, merged⟩ := Outcome.bind_eq_ok.1 works
  rw [List.foldlM_append] at run
  obtain ⟨reached, first, last⟩ := Outcome.bind_eq_ok.1 run
  have cleared := Cleared.merge_empty reached
  have regular (other : File.Place) (tree : Tree)
      (loads : (load (store.put place (.file after)) [place] other).outcome = .ok tree) : tree.Regular :=
    regular_load loads
  obtain ⟨composed', last', cleared'⟩ := Outcome.exists_foldlM_of_related
    (fun _ _ _ _ cleared adds => cleared.addEntry regular adds) cleared last
  refine Outcome.bind_eq_ok.2 ⟨composed', ?_, ?_⟩
  · rw [List.foldlM_append]
    refine Outcome.bind_eq_ok.2 ⟨reached, first, ?_⟩
    rw [List.foldlM_cons, leads.addEntry empty]
    exact last'
  · rw [← merged, cleared'.merge lists'.regular]

/-- An entry for something that is no mapping drops what stands before it. -/
theorem load_of_dropped (below : place ≠ []) (lists : Lists place after (front ++ entry :: back) beside)
    (lists' : Lists place content (entry :: back) beside)
    (leads : LeadsTo (store.put place (.file after)) place target entry) {above : Tree}
    (loads : (load (store.put place (.file after)) [place] target).outcome = .ok above)
    (noMapping : above.isMapping = false)
    (works : (load (store.put place (.file after)) [] place).outcome = .ok tree) :
    (load (store.put place (.file content)) [] place).outcome = .ok tree := by
  rw [load_put below after lists] at works
  rw [load_put below after lists']
  obtain ⟨composed, run, merged⟩ := Outcome.bind_eq_ok.1 works
  rw [List.foldlM_append] at run
  obtain ⟨reached, -, last⟩ := Outcome.bind_eq_ok.1 run
  rw [List.foldlM_cons, leads.addEntry loads, Tree.merge_of_not_mapping noMapping] at last
  refine Outcome.bind_eq_ok.2 ⟨composed, ?_, merged⟩
  rw [List.foldlM_cons, leads.addEntry loads, Tree.merge_of_not_mapping noMapping]
  exact last

/-- An entry for a file that cannot be loaded lets nothing be composed. -/
theorem not_load_of_failing (below : place ≠ []) (lists : Lists place after (front ++ entry :: back) beside)
    (leads : LeadsTo (store.put place (.file after)) place target entry) {error : Error}
    (fails : (load (store.put place (.file after)) [place] target).outcome = .error error) (tree : Tree) :
    (load (store.put place (.file after)) [] place).outcome ≠ .ok tree := by
  intro works
  rw [load_put below after lists] at works
  obtain ⟨composed, run, -⟩ := Outcome.bind_eq_ok.1 works
  have member : entry ∈ front ++ entry :: back := List.mem_append_right front List.mem_cons_self
  obtain ⟨reached, result, step⟩ := Outcome.step_of_foldlM_eq_ok run member
  obtain ⟨inclusion, notSelf, parses, -, held, rfl⟩ := leads
  obtain ⟨below, found⟩ := child_of_addEntry notSelf parses held step
  cases fails.symm.trans found

theorem file_of_named (named : (File.Path.ofText path).holdsNull = false) :
    (file store path).outcome = (load store [] (rootPlace store path)).outcome := by
  rw [file, named]
  rfl

theorem named_of_file (works : (file store path).outcome = .ok tree) : (File.Path.ofText path).holdsNull = false := by
  rw [file] at works
  split at works
  · cases works
  · next named => exact Bool.not_eq_true _ ▸ named

theorem load_of_file (works : (file store path).outcome = .ok tree) :
    (load store [] (rootPlace store path)).outcome = .ok tree :=
  (file_of_named (named_of_file works)).symm.trans works

end

/-- A file that is a document without content is an empty mapping if it has no marker, and the empty string behind a start
marker. An entry for it changes nothing if it has no marker. Behind a start marker it drops all that the entries before it
are composed to, and with only an end marker the file that lists it is refused. -/
theorem empty_file_included (store : File.Store) (path : String) :
    (∀ marks, (File.Path.ofText path).holdsNull = false → IsEmptyFile store (rootPlace store path) marks →
        (file store path).outcome = emptyTree (placeText (rootPlace store path)) marks)
    ∧ ∀ target before after front entry back beside marks,
        AddsEntry store (rootPlace store path) target before after front entry back beside →
        IsEmptyFile (store.put (rootPlace store path) (.file after)) target marks →
        (marks = [] → ∀ tree, (file (store.put (rootPlace store path) (.file before)) path).outcome = .ok tree →
          (file (store.put (rootPlace store path) (.file after)) path).outcome = .ok tree)
        ∧ (marks ≠ [] → ∀ tree, (file (store.put (rootPlace store path) (.file after)) path).outcome = .ok tree →
          marks.head? = some .documentStart
            ∧ ∀ content, Lists (rootPlace store path) content (entry :: back) beside →
              (file (store.put (rootPlace store path) (.file content)) path).outcome = .ok tree) := by
  refine ⟨fun marks named empty => ?_, fun target before after front entry back beside marks adds empty => ?_⟩
  · rw [file_of_named named]
    exact empty.load List.not_mem_nil
  · have loads (below : rootPlace store path ≠ []) := empty.load
      (mt List.mem_singleton.1 (empty.ne (contentAt_put below) adds.listed))
    refine ⟨fun unmarked tree works => ?_, fun marked tree works => ?_⟩
    · subst unmarked
      have named := named_of_file works
      have works := load_of_file works
      rw [file_of_named named]
      exact load_of_added (below_of_load works) adds.without adds.listed adds.leads (loads (below_of_load works)) works
    · have named := named_of_file works
      have works := load_of_file works
      have below := below_of_load works
      cases empty.1 with
      | none => exact absurd rfl marked
      | stop => exact absurd works (not_load_of_failing below adds.listed adds.leads (loads below) tree)
      | start | both =>
        refine ⟨rfl, fun content lists => ?_⟩
        rw [file_of_named named]
        exact load_of_dropped below adds.listed lists adds.leads (loads below) rfl works

/-- A file for each kind of a document without content, and one that has some. -/
def sparseStore : File.Store :=
  ⟨[(["base.yaml"], .file (File.contentOf "a: 1\nb: 1\n".toList)),
    (["empty.yaml"], .file (File.contentOf "# nothing\n\n".toList)),
    (["marked.yaml"], .file (File.contentOf "---\n".toList))], []⟩

/-- The text of a file that lists these files of `sparseStore`. -/
def listing (names : List String) : ByteArray :=
  File.contentOf ("defaults: [" ++ ", ".intercalate names ++ "]\nb: 2\n").toList

theorem lists_listing (names : List String)
    (reads : readContent ["main.yaml"] (listing names)
      = .ok (.mapping [("defaults", .sequence (names.map .string)), ("b", .int 2)])) :
    Lists ["main.yaml"] (listing names) (names.map .string) [("b", .int 2)] :=
  ⟨_, reads, Or.inl rfl, rfl⟩

theorem addsEntry_sparseStore (name : String) (target : File.Place)
    (reads : readContent ["main.yaml"] (listing ["base", name])
      = .ok (.mapping [("defaults", .sequence [.string "base", .string name]), ("b", .int 2)]))
    (notSelf : isSelf (.string name) = false)
    (parses : Include.parse (.ofNames []) (.string name) = .ok ⟨.ofNames target, none, false⟩)
    (held : (sparseStore.put ["main.yaml"] (.file (listing ["base", name]))).holds (.ofNames target) = true)
    (names : (File.Path.ofNames target).names = target) :
    AddsEntry sparseStore ["main.yaml"] target (listing ["base"]) (listing ["base", name]) [.string "base"]
      (.string name) [] [("b", .int 2)] :=
  ⟨lists_listing ["base"] (by decide +kernel), lists_listing ["base", name] reads,
    _, notSelf, parses, rfl, held, names⟩

theorem isEmptyFile_sparseStore (content : ByteArray) :
    IsEmptyFile (sparseStore.put ["main.yaml"] (.file content)) ["empty.yaml"] []
      ∧ IsEmptyFile (sparseStore.put ["main.yaml"] (.file content)) ["marked.yaml"] [.documentStart] := by
  have blank : Yaml.EmptyLine [] [] := .blank (.spaces 0)
  refine ⟨⟨.none, _, "# nothing\n\n".toList, rfl, by decide +kernel, by decide +kernel, ?_⟩,
    ⟨.start, _, "---\n".toList, rfl, by decide +kernel, by decide +kernel, ?_⟩⟩
  · have inLine : " nothing".toList.all (!Yaml.isBreak ·) = true := by decide
    have comment : Yaml.EmptyLine [] "# nothing".toList :=
      .blank (.comment 0 fun c member => by simpa using List.all_eq_true.1 inLine c member)
    exact .next comment (by decide) (.next blank (by decide) (.last blank))
  · have started : Yaml.EmptyLine [.documentStart] "---".toList := .start (.spaces 0) (by decide)
    exact .next started (by decide) (.last blank)

/-- What a load with a limit gives for a file that lists files of `sparseStore`. -/
theorem file_listing (names : List String) {tree : Tree}
    (run : (loadWithin (sparseStore.put ["main.yaml"] (.file (listing names))) 5 [] ["main.yaml"]).run
      = some (.ok tree)) :
    (file (sparseStore.put ["main.yaml"] (.file (listing names))) "main.yaml").outcome = .ok tree := by
  have path : (File.Path.ofText "main.yaml").names = ["main.yaml"] := by decide +kernel
  have place : rootPlace sparseStore "main.yaml" = ["main.yaml"] := by decide +kernel
  rw [file_of_named (by simp [File.Path.holdsNull, path])]
  show (load _ [] (rootPlace sparseStore "main.yaml")).outcome = _
  rw [place]
  exact outcome_load_of_within (Nat.lt_succ_self 4) run

/-- The entry for the file of comments changes nothing, and the one for the file with a start marker drops what `base.yaml`
has. -/
theorem empty_file_included_sparseStore :
    (file (sparseStore.put ["main.yaml"] (.file (listing ["base"]))) "main.yaml").outcome
        = .ok (.mapping [("a", .int 1), ("b", .int 2)])
      ∧ (file (sparseStore.put ["main.yaml"] (.file (listing ["base", "empty"]))) "main.yaml").outcome
        = .ok (.mapping [("a", .int 1), ("b", .int 2)])
      ∧ (file (sparseStore.put ["main.yaml"] (.file (listing ["base", "marked"]))) "main.yaml").outcome
        = .ok (.mapping [("b", .int 2)])
      ∧ (file (sparseStore.put ["main.yaml"] (.file (listing ["marked"]))) "main.yaml").outcome
        = .ok (.mapping [("b", .int 2)])
      ∧ (file (sparseStore.put ["main.yaml"] (.file (listing []))) "marked.yaml").outcome = .ok (.string "") := by
  have place : rootPlace sparseStore "main.yaml" = ["main.yaml"] := by decide +kernel
  have markedPath : (File.Path.ofText "marked.yaml").names = ["marked.yaml"] := by decide +kernel
  have markedPlace : rootPlace sparseStore "marked.yaml" = ["marked.yaml"] := by decide +kernel
  obtain ⟨-, included⟩ := empty_file_included sparseStore "main.yaml"
  obtain ⟨alone, -⟩ := empty_file_included (sparseStore.put ["main.yaml"] (.file (listing []))) "marked.yaml"
  rw [place] at included
  have base : (file (sparseStore.put ["main.yaml"] (.file (listing ["base"]))) "main.yaml").outcome
      = .ok (.mapping [("a", .int 1), ("b", .int 2)]) := file_listing ["base"] (by decide +kernel)
  have marked : (file (sparseStore.put ["main.yaml"] (.file (listing ["base", "marked"]))) "main.yaml").outcome
      = .ok (.mapping [("b", .int 2)]) := file_listing ["base", "marked"] (by decide +kernel)
  have addsEmpty := addsEntry_sparseStore "empty" ["empty.yaml"] (by decide +kernel) (by decide) (by decide +kernel)
    (by decide +kernel) (by decide +kernel)
  have addsMarked := addsEntry_sparseStore "marked" ["marked.yaml"] (by decide +kernel) (by decide) (by decide +kernel)
    (by decide +kernel) (by decide +kernel)
  refine ⟨base, ?_, marked, ?_, ?_⟩
  · obtain ⟨neutral, -⟩ := included _ _ _ _ _ _ _ _ addsEmpty (isEmptyFile_sparseStore _).1
    exact neutral rfl _ base
  · obtain ⟨-, drops⟩ := included _ _ _ _ _ _ _ _ addsMarked (isEmptyFile_sparseStore _).2
    exact (drops (List.cons_ne_nil _ _) _ marked).2 _ (lists_listing ["marked"] (by decide +kernel))
  · have empty := (isEmptyFile_sparseStore (listing [])).2
    rw [← markedPlace] at empty
    exact alone _ (by simp [File.Path.holdsNull, markedPath]) empty

end LayeredConfig.Compose
