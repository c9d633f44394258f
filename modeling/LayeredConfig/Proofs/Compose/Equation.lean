import LayeredConfig.Compose.Load
import LayeredConfig.Proofs.Outcome

/-!
# The equation of a composed file

`composition` says what the tree of a file is made of when the trees of other files are given: one step for each
include entry (`addEntry`), and the content of the file itself last. It is written for any monad with errors, so that one
text serves the outcomes of loads and loads that change the set of files being loaded. `outcome_load` reads `load` as
this equation over loads that have the file opened. `parse_cases` tells what the entries mean that can be read.
-/

namespace LayeredConfig.Compose

section

variable {m : Type → Type} [Monad m] [MonadExceptOf Error m]

/-- Composes the file of an include entry over what is composed already. -/
def addEntry (store : File.Store) (child : File.Place → m Tree) (base : File.Path) (composed entry : Tree) :
    m Tree :=
  if isSelf entry then pure composed
  else do
    let inclusion ← MonadExcept.ofExcept (Include.parse base entry)
    if store.holds inclusion.file then
      let tree ← child inclusion.file.names
      MonadExcept.ofExcept (place composed tree inclusion.target)
    else if inclusion.optional then pure composed
    else throw (.includeAbsent inclusion.file.text)

/-- What the includes of a file make up, when these are the entries of its root. -/
def included (store : File.Store) (child : File.Place → m Tree) (place : File.Place)
    (entries : List (String × Tree)) : m Tree :=
  match entries.lookup includesKey with
  | none => pure (.mapping [])
  | some (.sequence items) => items.foldlM (addEntry store child (.ofNames place.dropLast)) (.mapping [])
  | some _ => throw (.includesNotSequence (placeText place))

/-- The tree of the file at a place, with all that it includes. -/
def composition (store : File.Store) (child : File.Place → m Tree) (place : File.Place) : m Tree :=
  match store.contentAt place with
  | .error failure => throw (.sourceUnreadable (placeText place) failure)
  | .ok content => do
    match ← MonadExcept.ofExcept (readContent place content) with
    | .null => pure (.mapping [])
    | .mapping entries =>
      let composed ← included store child place entries
      pure (composed.merge (.mapping (Entries.erase includesKey entries)))
    | root => pure root

end

/-- An entry that can be read is the path of a file that is merged at the root, or the name of one in the directory of a
group, which spells the key path that the file is placed under. -/
theorem parse_cases {base : File.Path} {item : Tree} {inclusion : Include}
    (parses : Include.parse base item = .ok inclusion) :
    (∃ text, item = .string text ∧ inclusion.target = none
      ∧ Include.fileOf base (.ofText (String.ofList (Include.stripMark text.toList).1)) = .ok inclusion.file)
    ∨ ∃ group name target, item = .mapping [(group, .string name)] ∧ inclusion.target = some target
      ∧ KeyPath.parse (String.ofList (Include.stripMark group.toList).1) = .ok target
      ∧ Include.fileOf base ((File.Path.ofText (String.ofList (Include.stripMark group.toList).1)).join (.ofText name))
        = .ok inclusion.file := by
  unfold Include.parse at parses
  split at parses
  · next text =>
    dsimp only at parses
    split at parses
    · cases parses
    · obtain ⟨file, means, same⟩ := Outcome.bind_eq_ok.1 parses
      cases same
      exact .inl ⟨text, rfl, rfl, means⟩
  · next group name =>
    obtain ⟨target, spells, parses⟩ := Outcome.bind_eq_ok.1 parses
    obtain ⟨file, means, same⟩ := Outcome.bind_eq_ok.1 parses
    cases same
    exact .inr ⟨group, name, target, rfl, rfl, spells, means⟩
  · cases parses
  · cases parses
  · cases parses

theorem outcome_loadIncludes (store : File.Store) (opened : List File.Place) (base : File.Path)
    (composed : Tree) (items : List Tree) :
    (loadIncludes store opened base composed items).outcome
      = items.foldlM (addEntry store (fun other => (load store opened other).outcome) base) composed := by
  induction items generalizing composed with
  | nil =>
    rw [loadIncludes]
    rfl
  | cons entry rest ih =>
    rw [loadIncludes, List.foldlM_cons, addEntry]
    split
    · exact ih composed
    · cases Include.parse base entry with
      | error e => rfl
      | ok inclusion =>
        show Logged.outcome (if store.holds inclusion.file = true then _ else _)
          = Except.bind (if store.holds inclusion.file = true then _ else _) _
        split
        · rw [Logged.outcome_bind]
          cases (load store opened inclusion.file.names).outcome with
          | error e => rfl
          | ok tree =>
            show Logged.outcome (_ >>= _)
              = Except.bind (MonadExcept.ofExcept (place composed tree inclusion.target)) _
            rw [Logged.outcome_bind]
            cases place composed tree inclusion.target with
            | error e => rfl
            | ok composed => exact ih composed
        · split
          · exact ih composed
          · rfl

theorem outcome_load (store : File.Store) (opened : List File.Place) (place : File.Place) :
    (load store opened place).outcome =
      if opened.contains place then .error (.includeCycle (placeText place))
      else composition store (fun other => (load store (place :: opened) other).outcome) place := by
  rw [load]
  split
  · rfl
  · rw [Logged.outcome_bind, composition]
    show Logged.outcome _ = _
    split
    · next failure unreadable =>
      rw [unreadable]
      rfl
    · next content found =>
      rw [found]
      show Logged.outcome (_ >>= _) = Except.bind (MonadExcept.ofExcept (readContent place content)) _
      rw [Logged.outcome_bind]
      cases readContent place content with
      | error e => rfl
      | ok root =>
        cases root with
        | mapping entries =>
          show Logged.outcome _ = Except.bind (included store _ place entries) _
          rw [included]
          dsimp only
          cases entries.lookup includesKey with
          | none => rfl
          | some listed =>
            cases listed with
            | sequence items =>
              show Logged.outcome (_ >>= _) = Except.bind (items.foldlM _ _) _
              rw [Logged.outcome_bind, outcome_loadIncludes]
              rfl
            | null | bool | int | double | string | mapping => rfl
        | null | bool | int | double | string | sequence => rfl

/-! ## Compositions that succeed -/

section

variable {store : File.Store} {child : File.Place → Except Error Tree} {base : File.Path} {place : File.Place}
  {composed entry result : Tree} {inclusion : Include} {entries : List (String × Tree)}

/-- An entry whose file is there places what is loaded of it. -/
theorem addEntry_of_held (notSelf : isSelf entry = false) (parses : Include.parse base entry = .ok inclusion)
    (held : store.holds inclusion.file = true) (composed : Tree) :
    addEntry store child base composed entry
      = child inclusion.file.names >>= fun tree => Compose.place composed tree inclusion.target := by
  rw [addEntry, notSelf, parses]
  show (if store.holds inclusion.file = true then _ else _) = _
  rw [if_pos held]
  simp only [Outcome.ofExcept_eq]

/-- An entry that composes changes nothing, or its file is there and was loaded and placed. -/
theorem addEntry_cases (adds : addEntry store child base composed entry = .ok result) :
    result = composed ∨ ∃ inclusion tree, isSelf entry = false ∧ Include.parse base entry = .ok inclusion
      ∧ store.holds inclusion.file = true ∧ child inclusion.file.names = .ok tree
      ∧ Compose.place composed tree inclusion.target = .ok result := by
  rw [addEntry] at adds
  split at adds
  · cases adds
    exact .inl rfl
  · next notSelf =>
    rw [Bool.not_eq_true] at notSelf
    rw [Outcome.ofExcept_eq] at adds
    obtain ⟨inclusion, parses, adds⟩ := Outcome.bind_eq_ok.1 adds
    split at adds
    · next held =>
      obtain ⟨tree, loads, placed⟩ := Outcome.bind_eq_ok.1 adds
      rw [Outcome.ofExcept_eq] at placed
      exact .inr ⟨inclusion, tree, notSelf, parses, held, loads, placed⟩
    · split at adds
      · cases adds
        exact .inl rfl
      · cases adds

theorem included_cases (includes : included store child place entries = .ok composed) :
    entries.lookup includesKey = none ∧ composed = .mapping []
      ∨ ∃ items, entries.lookup includesKey = some (.sequence items)
        ∧ items.foldlM (addEntry store child (.ofNames place.dropLast)) (.mapping []) = .ok composed := by
  rw [included] at includes
  split at includes
  · next absent =>
    cases includes
    exact .inl ⟨absent, rfl⟩
  · next items listed => exact .inr ⟨items, listed, includes⟩
  · cases includes

/-- A file that composes holds nothing, a mapping that is laid over what it includes, or another tree. -/
theorem composition_cases (composes : composition store child place = .ok result) :
    ∃ content root, store.contentAt place = .ok content ∧ readContent place content = .ok root
      ∧ (root = .null ∧ result = .mapping []
        ∨ (∃ entries composed, root = .mapping entries ∧ included store child place entries = .ok composed
          ∧ result = composed.merge (.mapping (Entries.erase includesKey entries)))
        ∨ root.isMapping = false ∧ result = root) := by
  rw [composition] at composes
  split at composes
  · cases composes
  · next content present =>
    rw [Outcome.ofExcept_eq] at composes
    obtain ⟨root, reads, composes⟩ := Outcome.bind_eq_ok.1 composes
    refine ⟨content, root, present, reads, ?_⟩
    cases root with
    | null =>
      cases composes
      exact .inl ⟨rfl, rfl⟩
    | mapping entries =>
      obtain ⟨composed, includes, composes⟩ := Outcome.bind_eq_ok.1 composes
      cases composes
      exact .inr (.inl ⟨entries, composed, rfl, includes, rfl⟩)
    | bool | int | double | string | sequence =>
      cases composes
      exact .inr (.inr ⟨rfl, rfl⟩)

end

end LayeredConfig.Compose
