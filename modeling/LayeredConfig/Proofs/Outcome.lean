import LayeredConfig.Journal.Logged

/-!
# Outcomes of steps

What the outcome of steps in a row says about the single steps, when it is a success and when it is a failure.
-/

namespace LayeredConfig.Outcome

variable {ε α β : Type} {outcome : Except ε α} {next : α → Except ε β}

instance decidableEqExcept [DecidableEq ε] [DecidableEq α] : DecidableEq (Except ε α)
  | .ok a, .ok b => decidable_of_iff (a = b) (by simp)
  | .error e, .error f => decidable_of_iff (e = f) (by simp)
  | .ok _, .error _ | .error _, .ok _ => isFalse nofun

theorem ofExcept_eq (outcome : Except ε α) : (MonadExcept.ofExcept outcome : Except ε α) = outcome := by
  cases outcome <;> rfl

theorem bind_eq_ok {b : β} : outcome >>= next = .ok b ↔ ∃ a, outcome = .ok a ∧ next a = .ok b := by
  cases outcome with
  | error e =>
    constructor
    · exact nofun
    · rintro ⟨a, impossible, -⟩
      cases impossible
  | ok a =>
    refine ⟨fun run => ⟨a, rfl, run⟩, ?_⟩
    rintro ⟨a, same, run⟩
    cases same
    exact run

theorem bind_eq_error {e : ε} :
    outcome >>= next = .error e ↔ outcome = .error e ∨ ∃ a, outcome = .ok a ∧ next a = .error e := by
  cases outcome with
  | error e =>
    constructor
    · intro fails
      cases fails
      exact Or.inl rfl
    · rintro (fails | ⟨a, impossible, -⟩)
      · cases fails
        rfl
      · cases impossible
  | ok a =>
    refine ⟨fun run => Or.inr ⟨a, rfl, run⟩, ?_⟩
    rintro (impossible | ⟨a, same, run⟩)
    · cases impossible
    · cases same
      exact run

/-- Where a fold succeeds, each of its steps does. -/
theorem step_of_foldlM_eq_ok {step : β → α → Except ε β} {items : List α} {start result : β}
    (run : items.foldlM step start = .ok result) {item : α} (member : item ∈ items) :
    ∃ before after, step before item = .ok after := by
  induction items generalizing start with
  | nil => cases member
  | cons head rest ih =>
    rw [List.foldlM_cons, bind_eq_ok] at run
    obtain ⟨after, first, run⟩ := run
    rcases List.mem_cons.1 member with rfl | member
    · exact ⟨start, after, first⟩
    · exact ih run member

/-- Where a fold fails, one of its steps does. -/
theorem step_of_foldlM_eq_error {step : β → α → Except ε β} {items : List α} {start : β} {e : ε}
    (run : items.foldlM step start = .error e) : ∃ item ∈ items, ∃ before, step before item = .error e := by
  induction items generalizing start with
  | nil => cases run
  | cons head rest ih =>
    rw [List.foldlM_cons, bind_eq_error] at run
    rcases run with fails | ⟨after, -, run⟩
    · exact ⟨head, List.mem_cons_self, start, fails⟩
    · obtain ⟨item, member, before, fails⟩ := ih run
      exact ⟨item, List.mem_cons_of_mem _ member, before, fails⟩

/-- What every step of a fold keeps, a fold that succeeds keeps. -/
theorem invariant_of_foldlM_eq_ok {step : β → α → Except ε β} {items : List α} {start result : β} {good : β → Prop}
    (keeps : ∀ item ∈ items, ∀ before after, good before → step before item = .ok after → good after) (begins : good start)
    (run : items.foldlM step start = .ok result) : good result := by
  induction items generalizing start with
  | nil =>
    cases run
    exact begins
  | cons head rest ih =>
    rw [List.foldlM_cons, bind_eq_ok] at run
    obtain ⟨after, first, run⟩ := run
    rw [List.forall_mem_cons] at keeps
    exact ih keeps.2 (keeps.1 start after begins first) run

/-- Where each step takes related values to related values, a fold that succeeds does. -/
theorem exists_foldlM_of_related {step step' : β → α → Except ε β} {related : β → β → Prop} {items : List α}
    {start start' result : β}
    (steps : ∀ before before' item after, related before before' → step before item = .ok after →
      ∃ after', step' before' item = .ok after' ∧ related after after')
    (begins : related start start') (run : items.foldlM step start = .ok result) :
    ∃ result', items.foldlM step' start' = .ok result' ∧ related result result' := by
  induction items generalizing start start' with
  | nil =>
    cases run
    exact ⟨start', rfl, begins⟩
  | cons head rest ih =>
    rw [List.foldlM_cons, bind_eq_ok] at run
    obtain ⟨after, first, run⟩ := run
    obtain ⟨after', first', relates⟩ := steps start start' head after begins first
    obtain ⟨result', run', last⟩ := ih relates run
    refine ⟨result', ?_, last⟩
    rw [List.foldlM_cons, bind_eq_ok]
    exact ⟨after', first', run'⟩

/-- A success of a good kind, or a failure of a permitted one. -/
def Meets (good : α → Prop) (permitted : ε → Prop) : Except ε α → Prop
  | .ok a => good a
  | .error e => permitted e

section

variable {good good' : α → Prop} {fine : β → Prop} {permitted permitted' : ε → Prop}

theorem Meets.bind (first : Meets good permitted outcome) (rest : ∀ a, good a → Meets fine permitted (next a)) :
    Meets fine permitted (outcome >>= next) := by
  cases outcome with
  | ok a => exact rest a first
  | error e => exact first

theorem Meets.map {f : α → β} (first : Meets good permitted outcome) (takes : ∀ a, good a → fine (f a)) :
    Meets fine permitted (outcome.map f) := by
  cases outcome with
  | ok a => exact takes a first
  | error e => exact first

theorem Meets.imp (first : Meets good permitted outcome) (results : ∀ a, good a → good' a)
    (failures : ∀ e, permitted e → permitted' e) : Meets good' permitted' outcome := by
  cases outcome with
  | ok a => exact results a first
  | error e => exact failures e first

theorem meets_mapM {step : α → Except ε β} {items : List α}
    (each : ∀ item ∈ items, Meets fine permitted (step item)) :
    Meets (fun results => ∀ result ∈ results, fine result) permitted (items.mapM step) := by
  induction items with
  | nil => exact List.forall_mem_nil fine
  | cons item rest ih =>
    rw [List.forall_mem_cons] at each
    rw [List.mapM_cons]
    refine each.1.bind fun result good => (ih each.2).bind fun results all => ?_
    exact List.forall_mem_cons.2 ⟨good, all⟩

end

end LayeredConfig.Outcome
