/-!
# Integers of 64 bits
-/

namespace LayeredConfig

/-- The 64-bit integer equal to an integer, if there is one. -/
def int64? (n : Int) : Option Int64 :=
  if Int64.minValue.toInt ≤ n ∧ n ≤ Int64.maxValue.toInt then some (Int64.ofInt n) else none

theorem int64?_eq_some_iff {n : Int} {value : Int64} : int64? n = some value ↔ value.toInt = n := by
  unfold int64?
  constructor
  · intro h
    split at h
    · next range =>
      cases h
      exact Int64.toInt_ofInt_of_le range.1 (Int.lt_of_le_sub_one range.2)
    · cases h
  · rintro rfl
    rw [if_pos ⟨Int64.minValue_le_toInt value, Int64.toInt_le value⟩]
    simp

end LayeredConfig
