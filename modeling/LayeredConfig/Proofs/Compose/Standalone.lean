import LayeredConfig.Proofs.Compose.Equation
import Mathlib.Data.List.Chain

/-!
# Files loaded by themselves

`standalone` is the outcome of a file loaded by itself, and `Processes` relates a file to the files that such a load
gets to. Where no chain of these reaches a file twice (`Unrepeated`), a load does not depend on the files that are
open around it, as long as no chain comes to one of them (`Clear`): `outcome_load_of_clear`. The induction is on the
chains, which end because each file of a chain is another one of the store.
-/

namespace LayeredConfig.Compose

section

variable (store : File.Store)

/-- The outcome of loading the file at a place by itself. -/
def standalone (place : File.Place) : Except Error Tree :=
  (load store [] place).outcome

/-- A load of the file at `place` by itself gets to an entry that includes the file at `target`: the entries before it
succeed, and the file is there. -/
inductive Processes (place : File.Place) : File.Place → Prop
  | entry {content : ByteArray} {entries : List (String × Tree)} {before after : List Tree}
      {item composed : Tree} {inclusion : Include} (present : store.contentAt place = .ok content)
      (root : readContent place content = .ok (.mapping entries))
      (listed : entries.lookup includesKey = some (.sequence (before ++ item :: after)))
      (reached : before.foldlM (addEntry store (standalone store) (.ofNames place.dropLast)) (.mapping []) = .ok composed)
      (notSelf : isSelf item = false) (parses : Include.parse (.ofNames place.dropLast) item = .ok inclusion)
      (held : store.holds inclusion.file = true) : Processes place inclusion.file.names

/-- No chain of includes from a file reaches a file twice. -/
def Unrepeated (place : File.Place) : Prop :=
  ∀ chain : List File.Place, (place :: chain).IsChain (Processes store) → (place :: chain).Nodup

/-- No chain of includes from a file reaches one of the opened files. -/
def Clear (opened : List File.Place) (place : File.Place) : Prop :=
  ∀ chain : List File.Place, (place :: chain).IsChain (Processes store) →
    ∀ other ∈ place :: chain, other ∉ opened

end

variable {store : File.Store} {place : File.Place}

/-! ## Chains of includes -/

theorem Unrepeated.child {child : File.Place} (unrepeated : Unrepeated store place)
    (processes : Processes store place child) : Unrepeated store child := by
  intro chain links
  exact (List.nodup_cons.1 (unrepeated (child :: chain) (links.cons_cons processes))).2

theorem Clear.not_contains {opened : List File.Place} (clear : Clear store opened place) :
    ¬opened.contains place := by
  rw [List.contains_iff_mem]
  exact clear [] (.singleton place) place List.mem_cons_self

theorem Clear.nil (place : File.Place) : Clear store [] place :=
  fun _ _ _ _ => List.not_mem_nil

/-- What an unrepeated file includes does not come back to it. -/
theorem Clear.child {opened : List File.Place} {child : File.Place} (unrepeated : Unrepeated store place)
    (clear : Clear store opened place) (processes : Processes store place child) :
    Clear store (place :: opened) child := by
  intro chain links other member
  have whole := links.cons_cons processes
  rw [List.mem_cons, not_or]
  constructor
  · intro same
    subst same
    exact (List.nodup_cons.1 (unrepeated (child :: chain) whole)).1 member
  · exact clear (child :: chain) whole other (List.mem_cons_of_mem _ member)

theorem Processes.present {child : File.Place} (processes : Processes store place child) :
    place ∈ store.nodes.map Prod.fst := by
  cases processes with
  | entry present => exact mem_of_contentAt present

/-- Chains of includes from an unrepeated file end. -/
theorem Unrepeated.acc {place : File.Place} (opened : List File.Place) (unrepeated : Unrepeated store place)
    (clear : Clear store opened place) : Acc (fun child parent => Processes store parent child) place := by
  constructor
  intro child processes
  have shorter := length_unopened_lt processes.present clear.not_contains
  exact Unrepeated.acc (place :: opened) (unrepeated.child processes) (clear.child unrepeated processes)
termination_by (unopened store opened).length

/-! ## Loads that agree -/

theorem foldlM_congr {ε α β : Type} {step step' : β → α → Except ε β} (items : List α) {start : β}
    (agree : ∀ before item after reached, items = before ++ item :: after →
      before.foldlM step start = .ok reached → step' reached item = step reached item) :
    items.foldlM step' start = items.foldlM step start := by
  induction items generalizing start with
  | nil => rfl
  | cons item rest ih =>
    rw [List.foldlM_cons, List.foldlM_cons, agree [] item rest start rfl rfl]
    cases first : step start item with
    | error e => rfl
    | ok reached =>
      refine ih fun before other after reached' split run => ?_
      refine agree (item :: before) other after reached' (by rw [split, List.cons_append]) ?_
      rw [List.foldlM_cons, first]
      exact run

/-- Loads that agree on the file of an entry compose it alike. -/
theorem addEntry_congr {child child' : File.Place → Except Error Tree} {base : File.Path} {composed entry : Tree}
    (agree : ∀ inclusion, isSelf entry = false → Include.parse base entry = .ok inclusion →
      store.holds inclusion.file = true → child inclusion.file.names = child' inclusion.file.names) :
    addEntry store child base composed entry = addEntry store child' base composed entry := by
  rw [addEntry, addEntry]
  split
  · rfl
  · next notSelf =>
    rw [Bool.not_eq_true] at notSelf
    cases parses : Include.parse base entry with
    | error e => rfl
    | ok inclusion =>
      show (if store.holds inclusion.file = true then _ else _)
        = (if store.holds inclusion.file = true then _ else _)
      split
      · next held => rw [agree inclusion notSelf parses held]
      · rfl

/-- Loads that agree on the files that are processed compose the include entries alike. -/
theorem included_congr {child : File.Place → Except Error Tree} {content : ByteArray}
    {entries : List (String × Tree)} (present : store.contentAt place = .ok content)
    (root : readContent place content = .ok (.mapping entries))
    (agree : ∀ other, Processes store place other → child other = standalone store other) :
    included store child place entries = included store (standalone store) place entries := by
  rw [included, included]
  split
  · rfl
  · next items listed =>
    refine foldlM_congr items fun before item after composed split reached => ?_
    subst split
    exact addEntry_congr fun inclusion notSelf parses held =>
      agree _ (.entry present root listed reached notSelf parses held)
  · rfl

/-- Loads that agree on the files that are processed make up the same tree. -/
theorem composition_congr {child : File.Place → Except Error Tree}
    (agree : ∀ other, Processes store place other → child other = standalone store other) :
    composition store child place = composition store (standalone store) place := by
  rw [composition, composition]
  cases present : store.contentAt place with
  | error failure => rfl
  | ok content =>
    show Except.bind (MonadExcept.ofExcept (readContent place content)) _
      = Except.bind (MonadExcept.ofExcept (readContent place content)) _
    cases read : readContent place content with
    | error e => rfl
    | ok root =>
      cases root with
      | mapping entries =>
        show Except.bind (included store child place entries) _
          = Except.bind (included store (standalone store) place entries) _
        rw [included_congr present read agree]
      | null | bool | int | double | string | sequence => rfl

/-- A load is the equation over loads by themselves, whatever is open elsewhere. -/
theorem outcome_load_of_clear (unrepeated : Unrepeated store place) {opened : List File.Place}
    (clear : Clear store opened place) :
    (load store opened place).outcome = composition store (standalone store) place := by
  have acc := unrepeated.acc [] (.nil place)
  induction acc generalizing opened with
  | intro place _ ih =>
    rw [outcome_load, if_neg clear.not_contains]
    refine composition_congr fun other processes => ?_
    have inside := ih other processes (unrepeated.child processes) (clear.child unrepeated processes)
    exact inside.trans (ih other processes (unrepeated.child processes) (.nil other)).symm

end LayeredConfig.Compose
