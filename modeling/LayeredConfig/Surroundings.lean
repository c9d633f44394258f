import LayeredConfig.Time.Moment

/-!
# Surroundings of a run

What a run can see of the world besides files: the environment, the time, and the name of the program.
-/

namespace LayeredConfig

/-- The environment, the time of day and the arguments that the program was started with, its own name
first. -/
structure Surroundings where
  environment : List (String × String)
  now : Moment
  arguments : List String

namespace Surroundings

/-- The value of a variable that is set and not empty. -/
def value? (surroundings : Surroundings) (name : String) : Option String :=
  match surroundings.environment.lookup name with
  | some value => if value.isEmpty then none else some value
  | none => none

variable {surroundings : Surroundings} {name value : String}

theorem value?_eq_some_iff :
    surroundings.value? name = some value ↔ surroundings.environment.lookup name = some value ∧ value ≠ "" := by
  unfold value?
  cases surroundings.environment.lookup name with
  | none => simp
  | some text =>
    dsimp only
    by_cases empty : text = ""
    · subst empty
      refine ⟨nofun, fun holds => ?_⟩
      rcases holds with ⟨same, filled⟩
      exact absurd (Option.some.inj same).symm filled
    · rw [if_neg fun isEmpty => empty (String.isEmpty_iff.1 isEmpty)]
      refine ⟨fun same => ⟨same, ?_⟩, And.left⟩
      cases same
      exact empty

/-- A variable has no value if it is not set or is set to the empty text. -/
theorem value?_eq_none_iff :
    surroundings.value? name = none ↔ ∀ text, surroundings.environment.lookup name = some text → text = "" := by
  constructor
  · intro unset text set
    refine Decidable.byContradiction fun filled => ?_
    cases unset.symm.trans (value?_eq_some_iff.2 ⟨set, filled⟩)
  · intro empty
    cases known : surroundings.value? name with
    | none => rfl
    | some text =>
      obtain ⟨set, filled⟩ := value?_eq_some_iff.1 known
      exact absurd (empty text set) filled

end Surroundings

end LayeredConfig
