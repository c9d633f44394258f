import LayeredConfig.Proofs.Compose.Refusals
import LayeredConfig.Proofs.File.Paths
import Mathlib.Data.Finset.Dedup
import Mathlib.Data.Finset.Card
import Mathlib.Data.List.Chain
import Mathlib.Logic.Relation

/-!
# Files that include themselves

`Includes` relates a file to what its entries lead to, whatever becomes of the entries before them. A load succeeds only
if no chain of includes comes to a file twice (`nodup_of_load`), and a load that refuses a file for including itself
names one that does (`cycle_of_load`). A loader that may keep so many loads open at a time as there are files and
directories, and one more, never needs to keep more (`loadWithin_eq`). All three are inductions along the files that are
open, each of which is another one of the store.
-/

namespace LayeredConfig.Compose

/-- The file at `place` lists an entry, other than the one that stands for the file itself, and the file system leads
from the path of the entry to `other`, where something is. -/
inductive Includes (store : File.Store) (place : File.Place) : File.Place → Prop
  | entry {content : ByteArray} {entries : List (String × Tree)} {items : List Tree} {item : Tree}
      {inclusion : Include} {other : File.Place} (present : store.contentAt place = .ok content)
      (root : readContent place content = .ok (.mapping entries))
      (listed : entries.lookup includesKey = some (.sequence items)) (member : item ∈ items)
      (notSelf : isSelf item = false) (parses : Include.parse (.ofNames place.dropLast) item = .ok inclusion)
      (leads : store.placeOf inclusion.file = .ok other) (there : (store.node? other).isSome = true) :
      Includes store place other

/-- The place of the file that a written path means. -/
def rootPlace (store : File.Store) (path : String) : File.Place :=
  (File.Path.ofText path).resolve store.here

/-! ## Loads with a limit -/

/-- An outcome, or nothing if a limit was too low. -/
abbrev Limited := ExceptT Error Option

/-- An outcome that is within the limit. -/
def reached {α : Type} (outcome : Except Error α) : Limited α :=
  ExceptT.mk (some outcome)

/-- Loads the file at a place with this many loads open at a time, the one for the file itself among them. -/
def loadWithin (store : File.Store) : Nat → List File.Place → File.Place → Limited Tree
  | 0, _, _ => ExceptT.mk none
  | limit + 1, opened, place =>
    if opened.contains place then throw (.includeCycle (placeText place))
    else composition store (loadWithin store limit (place :: opened)) place

/-- Loads the file that a path leads to with this many loads open at a time. -/
def fileWithin (store : File.Store) (limit : Nat) (path : String) : Limited Tree :=
  if (File.Path.ofText path).holdsNull then throw .nullInPath
  else loadWithin store limit [] (rootPlace store path)

variable {store : File.Store} {place other : File.Place} {opened : List File.Place} {tree : Tree} {error : Error}

theorem reached_bind {α β : Type} {action : Limited α} {next : α → Limited β} {outcome : Except Error α}
    {next' : α → Except Error β} (first : action = reached outcome) (rest : ∀ a, next a = reached (next' a)) :
    action >>= next = reached (outcome >>= next') := by
  subst first
  cases outcome with
  | error e => rfl
  | ok a => exact rest a

theorem reached_foldlM {α β : Type} {step : β → α → Limited β} {step' : β → α → Except Error β}
    (same : ∀ composed item, step composed item = reached (step' composed item)) (items : List α) (start : β) :
    items.foldlM step start = reached (items.foldlM step' start) := by
  induction items generalizing start with
  | nil => rfl
  | cons item rest ih =>
    rw [List.foldlM_cons, List.foldlM_cons]
    exact reached_bind (same start item) ih

theorem reached_ofExcept {α : Type} (outcome : Except Error α) :
    (MonadExcept.ofExcept outcome : Limited α) = reached (MonadExcept.ofExcept outcome) := by
  cases outcome <;> rfl

theorem addEntry_reached {child : File.Place → Limited Tree} {child' : File.Place → Except Error Tree}
    (same : ∀ other, child other = reached (child' other)) (base : File.Path) (composed entry : Tree) :
    addEntry store child base composed entry = reached (addEntry store child' base composed entry) := by
  rw [addEntry, addEntry]
  split
  · rfl
  · refine reached_bind (reached_ofExcept _) fun inclusion => ?_
    split
    · exact reached_bind (same inclusion.file.names) fun tree => reached_ofExcept _
    · split <;> rfl

/-- Composing stays within a limit if the loads of the includes do. -/
theorem composition_reached {child : File.Place → Limited Tree} {child' : File.Place → Except Error Tree}
    (same : ∀ content, store.contentAt place = .ok content → ∀ other, child other = reached (child' other)) :
    composition store child place = reached (composition store child' place) := by
  rw [composition, composition]
  cases present : store.contentAt place with
  | error failure => rfl
  | ok content =>
    refine reached_bind (reached_ofExcept _) fun root => ?_
    cases root with
    | mapping entries =>
      refine reached_bind ?_ fun composed => rfl
      rw [included, included]
      cases entries.lookup includesKey with
      | none => rfl
      | some listed =>
        cases listed with
        | sequence items => exact reached_foldlM (addEntry_reached (same content present) _) items _
        | null | bool | int | double | string | mapping => rfl
    | null | bool | int | double | string | sequence => rfl

/-- The files and directories of a store that are not opened. -/
def closed (store : File.Store) (opened : List File.Place) : Finset File.Place :=
  (store.nodes.map Prod.fst).toFinset.filter fun place => !opened.contains place

theorem mem_closed_iff : place ∈ closed store opened ↔ place ∈ store.nodes.map Prod.fst ∧ place ∉ opened := by
  simp [closed]

theorem card_closed_lt (present : place ∈ store.nodes.map Prod.fst) (fresh : place ∉ opened) :
    (closed store (place :: opened)).card < (closed store opened).card := by
  refine Finset.card_lt_card (Finset.ssubset_iff_of_subset ?_ |>.2 ⟨place, ?_, ?_⟩)
  · intro other member
    rw [mem_closed_iff, List.mem_cons, not_or] at member
    exact mem_closed_iff.2 ⟨member.1, member.2.2⟩
  · exact mem_closed_iff.2 ⟨present, fresh⟩
  · exact fun member => (mem_closed_iff.1 member).2 List.mem_cons_self

/-- A limit above the number of files and directories that are not opened is never hit. -/
theorem loadWithin_eq {limit : Nat} (enough : (closed store opened).card < limit) (place : File.Place) :
    loadWithin store limit opened place = reached (load store opened place).outcome := by
  induction limit generalizing opened place with
  | zero => exact absurd enough (Nat.not_lt_zero _)
  | succ limit ih =>
    rw [loadWithin, outcome_load]
    split
    · rfl
    · next fresh =>
      rw [List.contains_iff_mem] at fresh
      refine composition_reached fun content present other => ih ?_ other
      exact Nat.lt_of_lt_of_le (card_closed_lt (mem_of_contentAt present) fresh) (Nat.le_of_lt_succ enough)

/-- What a load with more loads at a time than there are files and directories gives is the outcome. -/
theorem outcome_load_of_within {limit : Nat} (enough : store.nodes.length < limit) {outcome : Except Error Tree}
    (run : (loadWithin store limit opened place).run = some outcome) : (load store opened place).outcome = outcome := by
  have few : (closed store opened).card ≤ store.nodes.length := calc
    (closed store opened).card ≤ (store.nodes.map Prod.fst).toFinset.card := Finset.card_filter_le _ _
    _ ≤ (store.nodes.map Prod.fst).length := List.toFinset_card_le _
    _ = store.nodes.length := List.length_map _
  have within := loadWithin_eq (Nat.lt_of_le_of_lt few enough) place
  exact Option.some.inj ((congrArg ExceptT.run within).symm.trans run)

/-! ## Where entries lead -/

theorem normal_of_fileOf {base path file : File.Path} (absolute : base.isAbsolute = true)
    (means : Include.fileOf base path = .ok file) : file.isAbsolute = true ∧ File.Plain file.names := by
  rw [Include.fileOf] at means
  split at means
  · next extended _ =>
    cases means
    have whole := File.Path.isAbsolute_join absolute extended
    exact ⟨whole, File.Path.plain_normal whole⟩
  · cases means

/-- What an entry is read as has the file that some path means. -/
theorem exists_fileOf {base : File.Path} {item : Tree} {inclusion : Include}
    (parses : Include.parse base item = .ok inclusion) : ∃ path, Include.fileOf base path = .ok inclusion.file := by
  rcases parse_cases parses with ⟨_, -, -, means⟩ | ⟨_, _, _, -, -, -, means⟩
  · exact ⟨_, means⟩
  · exact ⟨_, means⟩

theorem normal_of_parse {base : File.Path} {item : Tree} {inclusion : Include} (absolute : base.isAbsolute = true)
    (parses : Include.parse base item = .ok inclusion) :
    inclusion.file.isAbsolute = true ∧ File.Plain inclusion.file.names := by
  obtain ⟨path, means⟩ := exists_fileOf parses
  exact normal_of_fileOf absolute means

/-- What an entry leads to is named by its file. -/
theorem names_of_placeOf {path : File.Path} (absolute : path.isAbsolute = true) (plain : File.Plain path.names)
    (leads : store.placeOf path = .ok place) : path.names = place := by
  rw [← File.Store.names_normal_of_placeOf absolute leads, File.Path.normal_of_plain plain]

theorem holds_of_placeOf {path : File.Path} (leads : store.placeOf path = .ok place)
    (there : (store.node? place).isSome = true) : store.holds path = true := by
  rw [File.Store.holds, File.Store.nodeAt?, leads]
  exact there

theorem placeOf_of_holds {path : File.Path} (held : store.holds path = true) :
    ∃ place, store.placeOf path = .ok place ∧ (store.node? place).isSome = true := by
  rw [File.Store.holds, File.Store.nodeAt?] at held
  cases leads : store.placeOf path with
  | error failure =>
    rw [leads] at held
    cases held
  | ok place =>
    rw [leads] at held
    exact ⟨place, rfl, held⟩

/-! ## Successful loads -/

theorem child_of_addEntry {child : File.Place → Except Error Tree} {base : File.Path} {composed entry result : Tree}
    {inclusion : Include} (notSelf : isSelf entry = false) (parses : Include.parse base entry = .ok inclusion)
    (held : store.holds inclusion.file = true) (works : addEntry store child base composed entry = .ok result) :
    ∃ below, child inclusion.file.names = .ok below := by
  rw [addEntry_of_held notSelf parses held] at works
  obtain ⟨below, found, -⟩ := Outcome.bind_eq_ok.1 works
  exact ⟨below, found⟩

theorem Includes.present (includes : Includes store place other) : place ∈ store.nodes.map Prod.fst := by
  cases includes with
  | entry present => exact mem_of_contentAt present

theorem composition_of_root {child : File.Place → Except Error Tree} {content : ByteArray}
    {entries : List (String × Tree)} (present : store.contentAt place = .ok content)
    (root : readContent place content = .ok (.mapping entries)) :
    composition store child place = (do
      let composed ← included store child place entries
      pure (composed.merge (.mapping (Entries.erase includesKey entries)))) := by
  rw [composition, present]
  dsimp only
  rw [root]
  rfl

/-- Where composing works, the loads of all files that the entries lead to do. -/
theorem child_of_composition {child : File.Place → Except Error Tree}
    (works : composition store child place = .ok tree) (includes : Includes store place other) :
    ∃ below, child other = .ok below := by
  cases includes with
  | entry present root listed member notSelf parses leads there =>
    obtain ⟨absolute, plain⟩ := normal_of_parse rfl parses
    obtain rfl := names_of_placeOf absolute plain leads
    rw [composition_of_root present root] at works
    obtain ⟨composed, run, -⟩ := Outcome.bind_eq_ok.1 works
    rw [included, listed] at run
    obtain ⟨before, after, step⟩ := Outcome.step_of_foldlM_eq_ok run member
    exact child_of_addEntry notSelf parses (holds_of_placeOf leads there) step

/-- Where a load succeeds, no chain of includes comes to a file twice, or to one that is open. -/
theorem nodup_of_load {chain : List File.Place} (works : (load store opened place).outcome = .ok tree)
    (links : (place :: chain).IsChain (Includes store)) :
    (place :: chain).Nodup ∧ ∀ other ∈ place :: chain, other ∉ opened := by
  induction chain generalizing place opened tree with
  | nil =>
    rw [outcome_load] at works
    split at works
    · cases works
    · next fresh =>
      rw [List.contains_iff_mem] at fresh
      exact ⟨List.nodup_singleton place, List.forall_mem_singleton.2 fresh⟩
  | cons next rest ih =>
    obtain ⟨includes, links⟩ := List.isChain_cons_cons.1 links
    rw [outcome_load] at works
    split at works
    · cases works
    · next fresh =>
      rw [List.contains_iff_mem] at fresh
      obtain ⟨below, inner⟩ := child_of_composition works includes
      obtain ⟨nodup, apart⟩ := ih inner links
      refine ⟨List.nodup_cons.2 ⟨fun member => apart place member List.mem_cons_self, nodup⟩, ?_⟩
      exact List.forall_mem_cons.2 ⟨fresh, fun other member opened => apart other member (List.mem_cons_of_mem _ opened)⟩

/-! ## Refusals -/

theorem child_of_refusal {child : File.Place → Except Error Tree} {base : File.Path} {composed entry : Tree}
    (fails : addEntry store child base composed entry = .error error) (kind : error.category = .includeCycle) :
    ∃ inclusion, isSelf entry = false ∧ Include.parse base entry = .ok inclusion
      ∧ store.holds inclusion.file = true ∧ child inclusion.file.names = .error error := by
  rw [addEntry] at fails
  split at fails
  · cases fails
  · next notSelf =>
    rw [Bool.not_eq_true] at notSelf
    rw [Outcome.ofExcept_eq] at fails
    rcases Outcome.bind_eq_error.1 fails with unread | ⟨inclusion, parses, fails⟩
    · exact absurd kind (noRefusal_parse base entry error unread)
    · split at fails
      · next held =>
        rcases Outcome.bind_eq_error.1 fails with inner | ⟨below, -, fails⟩
        · exact ⟨inclusion, notSelf, parses, held, inner⟩
        · rw [Outcome.ofExcept_eq] at fails
          exact absurd kind (noRefusal_place composed below inclusion.target error fails)
      · split at fails
        · cases fails
        · cases fails
          cases kind

/-- A refusal by a composition is one by the load of a file that an entry leads to. -/
theorem refusal_of_composition {child : File.Place → Except Error Tree}
    (fails : composition store child place = .error error) (kind : error.category = .includeCycle) :
    ∃ other, Includes store place other ∧ child other = .error error := by
  rw [composition] at fails
  split at fails
  · cases fails
    cases kind
  · next content present =>
    rw [Outcome.ofExcept_eq] at fails
    rcases Outcome.bind_eq_error.1 fails with unread | ⟨root, read, fails⟩
    · exact absurd kind (noRefusal_readContent place content error unread)
    · split at fails
      · cases fails
      · next entries =>
        rcases Outcome.bind_eq_error.1 fails with fails | ⟨composed, -, fails⟩
        · rw [included] at fails
          split at fails
          · cases fails
          · next items listed =>
            obtain ⟨item, member, composed, fails⟩ := Outcome.step_of_foldlM_eq_error fails
            obtain ⟨inclusion, notSelf, parses, held, inner⟩ := child_of_refusal fails kind
            obtain ⟨other, leads, there⟩ := placeOf_of_holds held
            obtain ⟨absolute, plain⟩ := normal_of_parse rfl parses
            rw [names_of_placeOf absolute plain leads] at inner
            exact ⟨other, .entry present read listed member notSelf parses leads there, inner⟩
          · cases fails
            cases kind
        · cases fails
      · cases fails

/-- A load that refuses a file for including itself names one that the includes lead to, and back to it. -/
theorem cycle_of_load {place : File.Place} {opened : List File.Place}
    (fails : (load store opened place).outcome = .error error)
    (kind : error.category = .includeCycle) :
    ∃ named, error = .includeCycle (placeText named) ∧ Relation.ReflTransGen (Includes store) place named
      ∧ (named ∈ opened ∨ Relation.TransGen (Includes store) named named) := by
  rw [outcome_load] at fails
  split at fails
  · next known =>
    cases fails
    exact ⟨place, rfl, .refl, Or.inl (List.contains_iff_mem.1 known)⟩
  · next fresh =>
    obtain ⟨other, includes, inner⟩ := refusal_of_composition fails kind
    have shorter := length_unopened_lt includes.present fresh
    obtain ⟨named, same, leads, back⟩ := cycle_of_load inner kind
    refine ⟨named, same, .head includes leads, ?_⟩
    rcases back with back | back
    · rcases List.mem_cons.1 back with rfl | known
      · exact Or.inr (.head' includes leads)
      · exact Or.inl known
    · exact Or.inr back
termination_by (unopened store opened).length

/-! ## Whole files -/

/-- However an include is spelled: where the file system leads somewhere from what is written, with the ending that it
may lack, the file that it is read as leads there. -/
theorem placeOf_fileOf {directory target : File.Place} {written extended : File.Path}
    (ended : (if File.Path.hasExtension written.name then some written else written.extend? Include.ending)
      = some extended)
    (leads : store.placeOf ((File.Path.ofNames directory).join extended) = .ok target) :
    ∃ file, Include.fileOf (.ofNames directory) written = .ok file ∧ store.placeOf file = .ok target := by
  refine ⟨((File.Path.ofNames directory).join extended).normal, ?_, ?_⟩
  · rw [Include.fileOf, ended]
  · exact File.Store.placeOf_normal (File.Path.isAbsolute_join rfl extended) leads

/-- Loading a file ends with no more loads open at a time than there are files and directories, and one more. It fails
if a chain of includes from the file comes to a file twice, and if it refuses a file for including itself, then that
file is one that the includes lead to, and back to it. All of this goes by where the file system leads to, however the
paths are spelled. -/
theorem file_include_cycles (store : File.Store) (path : String) :
    (∀ limit, (store.nodes.map Prod.fst).toFinset.card + 1 ≤ limit →
        fileWithin store limit path = reached (file store path).outcome)
    ∧ (∀ chain, (rootPlace store path :: chain).IsChain (Includes store) → ¬(rootPlace store path :: chain).Nodup →
        ∃ error, (file store path).outcome = .error error)
    ∧ (∀ error, (file store path).outcome = .error error → error.category = .includeCycle →
        ∃ named, error = .includeCycle (placeText named)
          ∧ Relation.ReflTransGen (Includes store) (rootPlace store path) named
          ∧ Relation.TransGen (Includes store) named named)
    ∧ (∀ target, store.placeOf ((File.Path.ofText path).absolute store.here) = .ok target →
        rootPlace store path = target)
    ∧ ∀ directory written extended target,
        (if File.Path.hasExtension written.name then some written else written.extend? Include.ending) = some extended →
        store.placeOf ((File.Path.ofNames directory).join extended) = .ok target →
        ∃ file, Include.fileOf (.ofNames directory) written = .ok file ∧ store.placeOf file = .ok target := by
  refine ⟨fun limit enough => ?_, fun chain links repeats => ?_, fun error fails kind => ?_, fun target leads => ?_,
    fun directory written extended target ended leads => placeOf_fileOf ended leads⟩
  · rw [fileWithin, file]
    split
    · rfl
    · refine loadWithin_eq (Nat.lt_of_lt_of_le (Nat.lt_succ_of_le ?_) enough) _
      exact Finset.card_filter_le _ _
  · cases loaded : (file store path).outcome with
    | error error => exact ⟨error, rfl⟩
    | ok tree =>
      rw [file] at loaded
      split at loaded
      · cases loaded
      · exact absurd (nodup_of_load loaded links).1 repeats
  · rw [file] at fails
    split at fails
    · cases fails
      cases kind
    · obtain ⟨named, same, leads, back⟩ := cycle_of_load fails kind
      exact ⟨named, same, leads, back.resolve_left List.not_mem_nil⟩
  · exact File.Store.resolve_of_placeOf leads

/-! ## Computing what a file includes -/

/-- The place that an entry leads to, if something is there. -/
def entryTarget? (store : File.Store) (base : File.Path) (item : Tree) : Option File.Place :=
  if isSelf item then none
  else
    match Include.parse base item with
    | .error _ => none
    | .ok inclusion =>
      match store.placeOf inclusion.file with
      | .error _ => none
      | .ok other => if (store.node? other).isSome then some other else none

/-- The places that the entries of a file lead to. -/
def includedPlaces (store : File.Store) (place : File.Place) : List File.Place :=
  match store.contentAt place with
  | .error _ => []
  | .ok content =>
    match readContent place content with
    | .ok (.mapping entries) =>
      match entries.lookup includesKey with
      | some (.sequence items) => items.filterMap (entryTarget? store (.ofNames place.dropLast))
      | _ => []
    | _ => []

theorem includes_of_mem (known : other ∈ includedPlaces store place) : Includes store place other := by
  rw [includedPlaces] at known
  split at known
  · cases known
  · next content present =>
    split at known
    · next entries root =>
      split at known
      · next items listed =>
        obtain ⟨item, member, target⟩ := List.mem_filterMap.1 known
        rw [entryTarget?] at target
        split at target
        · cases target
        · next notSelf =>
          rw [Bool.not_eq_true] at notSelf
          split at target
          · cases target
          · next inclusion parses =>
            split at target
            · cases target
            · next reached leads =>
              split at target
              · next there =>
                cases target
                exact .entry present root listed member notSelf parses leads there
              · cases target
      · cases known
    · cases known

/-- Files that include each other in a circle, spelled in different ways, and one that includes one of them. -/
def circularStore : File.Store :=
  ⟨[(["work"], .directory), (["work", "sub"], .directory),
    (["work", "main.yaml"], .file (File.contentOf "defaults:\n- sub/../a\n".toList)),
    (["work", "a.yaml"], .file (File.contentOf "defaults:\n- _self_\n- ?/work/./b.yaml\n".toList)),
    (["work", "b.yaml"], .file (File.contentOf "defaults:\n- sub: ../a\n".toList))], ["work"]⟩

theorem file_include_cycles_circularStore :
    fileWithin circularStore 6 "main.yaml" = reached (file circularStore "main.yaml").outcome
      ∧ ∃ error, (file circularStore "main.yaml").outcome = .error error := by
  obtain ⟨ends, fails, -⟩ := file_include_cycles circularStore "main.yaml"
  have root : rootPlace circularStore "main.yaml" = ["work", "main.yaml"] := by decide +kernel
  refine ⟨ends 6 (by decide +kernel), fails [["work", "a.yaml"], ["work", "b.yaml"], ["work", "a.yaml"]] ?_ ?_⟩
  · rw [root]
    refine .cons_cons (includes_of_mem ?_) (.cons_cons (includes_of_mem ?_) (.cons_cons (includes_of_mem ?_) (.singleton _)))
    all_goals decide +kernel
  · rw [root]
    decide

end LayeredConfig.Compose
