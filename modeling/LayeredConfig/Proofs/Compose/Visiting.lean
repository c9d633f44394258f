import LayeredConfig.Proofs.Compose.Standalone

/-!
# Loads that change a set

`load` hands the files that are open down as an argument. `visitWith` is one call of a loader that keeps them in a set
that it changes: it adds its file, composes, and takes the file out again, after a failure too. A loader all of whose
calls are of this form leaves the set as it finds it and has the outcomes of `load`, and `load` makes up such a
loader: `visits_iff`.
-/

namespace LayeredConfig.Compose

/-- An action that may change the set of files that are being loaded, and keeps the change when it fails. -/
abbrev Visiting := EStateM Error (List File.Place)

/-- One call of a loader that keeps the files being loaded in a set; `visit` makes the calls for the includes. -/
def visitWith (store : File.Store) (visit : File.Place → Visiting Tree) (place : File.Place) :
    Visiting Tree := do
  let visiting ← get
  if visiting.contains place then throw (.includeCycle (placeText place))
  else
    set (place :: visiting)
    try composition store visit place
    finally modify fun visiting => visiting.filter (· != place)

/-- Takes an outcome over and leaves the set as it is. -/
def keeping {α : Type} (outcome : Except Error α) : Visiting α := fun visiting =>
  match outcome with
  | .ok a => .ok a visiting
  | .error e => .error e visiting

section

variable {α β : Type} {visiting : List File.Place}

theorem keeping_bind {action : Visiting α} {next : α → Visiting β} {outcome : Except Error α}
    {next' : α → Except Error β} (first : action visiting = keeping outcome visiting)
    (rest : ∀ a, outcome = .ok a → next a visiting = keeping (next' a) visiting) :
    (action >>= next) visiting = keeping (outcome >>= next') visiting := by
  show EStateM.bind action next visiting = _
  rw [EStateM.bind, first]
  cases outcome with
  | error e => rfl
  | ok a => exact rest a rfl

theorem keeping_foldlM {step : β → α → Visiting β} {step' : β → α → Except Error β}
    (same : ∀ reached item, step reached item visiting = keeping (step' reached item) visiting)
    (items : List α) (start : β) :
    items.foldlM step start visiting = keeping (items.foldlM step' start) visiting := by
  induction items generalizing start with
  | nil => rfl
  | cons item rest ih =>
    rw [List.foldlM_cons, List.foldlM_cons]
    exact keeping_bind (same start item) fun reached _ => ih reached

end

variable {store : File.Store} {place : File.Place} {visit : File.Place → Visiting Tree}
  {child : File.Place → Except Error Tree} {visiting : List File.Place}

theorem keeping_ofExcept {α : Type} (outcome : Except Error α) :
    (MonadExcept.ofExcept outcome : Visiting α) visiting
      = keeping (MonadExcept.ofExcept outcome : Except Error α) visiting := by
  cases outcome <;> rfl

theorem addEntry_keeping (same : ∀ other, visit other visiting = keeping (child other) visiting)
    (base : File.Path) (composed entry : Tree) :
    addEntry store visit base composed entry visiting = keeping (addEntry store child base composed entry) visiting := by
  rw [addEntry, addEntry]
  split
  · rfl
  · refine keeping_bind (keeping_ofExcept _) fun inclusion _ => ?_
    split
    · exact keeping_bind (same inclusion.file.names) fun tree _ => keeping_ofExcept _
    · split
      · rfl
      · rfl

/-- Composing leaves the set as it is if the calls for the includes do. -/
theorem composition_keeping
    (same : ∀ content, store.contentAt place = .ok content →
      ∀ other, visit other visiting = keeping (child other) visiting) :
    composition store visit place visiting = keeping (composition store child place) visiting := by
  rw [composition, composition]
  cases present : store.contentAt place with
  | error failure => rfl
  | ok content =>
    refine keeping_bind (keeping_ofExcept _) fun root _ => ?_
    cases root with
    | mapping entries =>
      refine keeping_bind ?_ fun composed _ => rfl
      rw [included, included]
      cases entries.lookup includesKey with
      | none => rfl
      | some listed =>
        cases listed with
        | sequence items => exact keeping_foldlM (addEntry_keeping (same content present) _) items _
        | null | bool | int | double | string | mapping => rfl
    | null | bool | int | double | string | sequence => rfl

theorem finally_keeping {α : Type} {action : Visiting α} {outcome : Except Error α}
    {restore : List File.Place → List File.Place} {inner outer : List File.Place}
    (run : action inner = keeping outcome inner) (restores : restore inner = outer) :
    (tryFinally action (modify restore)) inner = keeping outcome outer := by
  subst restores
  show EStateM.map Prod.fst (tryFinally' action fun _ => modify restore) inner = _
  simp only [EStateM.map, tryFinally', run]
  cases outcome with
  | ok a => rfl
  | error e => rfl

/-- A call leaves the set as it is if the calls that it makes do: what it adds is taken out at the end. -/
theorem visitWith_keeping
    (same : ∀ content, store.contentAt place = .ok content → ¬visiting.contains place →
      ∀ other, visit other (place :: visiting)
        = keeping (load store (place :: visiting) other).outcome (place :: visiting)) :
    visitWith store visit place visiting = keeping (load store visiting place).outcome visiting := by
  rw [outcome_load]
  show (if visiting.contains place = true then _ else _ : Visiting Tree) visiting = _
  split
  · rfl
  · next fresh =>
    have body := composition_keeping fun content present => same content present fresh
    have restored : (place :: visiting).filter (· != place) = visiting := by
      rw [List.filter_cons_of_neg (by simp), List.filter_eq_self]
      intro other member
      rw [bne_iff_ne]
      intro same
      subst same
      exact fresh (List.contains_iff_mem.2 member)
    exact finally_keeping body restored

theorem keeping_of_calls (calls : ∀ place, visit place = visitWith store visit place) (place : File.Place)
    (visiting : List File.Place) :
    visit place visiting = keeping (load store visiting place).outcome visiting := by
  rw [calls]
  refine visitWith_keeping fun content present fresh other => ?_
  have shorter := length_unopened_lt (mem_of_contentAt present) fresh
  exact keeping_of_calls calls other (place :: visiting)
termination_by (unopened store visiting).length

/-- A loader whose calls change a set as `visitWith` does is `load` and leaves the set as it finds it, and there is
such a loader. -/
theorem visits_iff (store : File.Store) (visit : File.Place → Visiting Tree) :
    (∀ place, visit place = visitWith store visit place)
      ↔ ∀ place visiting, visit place visiting = keeping (load store visiting place).outcome visiting := by
  refine ⟨keeping_of_calls, fun keeps place => ?_⟩
  funext visiting
  rw [keeps]
  exact (visitWith_keeping fun _ _ _ other => keeps other _).symm

end LayeredConfig.Compose
