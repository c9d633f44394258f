import LayeredConfig.Number.Binary64
import Mathlib.Algebra.Group.Nat.Defs

/-!
# Ranks and their values

`Binary64.units` is strictly increasing and `Binary64.rankBelow` inverts it, so a quotient that is the exact
value of a rank is rounded to that rank: `Binary64.nearestRank_exact`.
-/

namespace LayeredConfig.Binary64

theorem pow_pos_of_pos {base : Nat} (positive : 0 < base) (e : Nat) : 0 < Nat.pow base e :=
  Nat.pow_pos positive

/-- The number of significands of one exponent. -/
theorem significands : Nat.pow 2 52 = 4503599627370496 := rfl

/-- Below the first exponent a rank is its own value. -/
theorem units_of_lt {rank : Nat} (h : rank < 4503599627370496) : units rank = rank := by
  unfold units
  rw [significands, if_pos h]

/-- From the first exponent on a rank is an exponent and a significand. -/
theorem units_of_split {exponent significand : Nat} (h : significand < 4503599627370496) :
    units ((exponent + 1) * 4503599627370496 + significand)
      = (4503599627370496 + significand) * 2 ^ exponent := by
  have modulo : ((exponent + 1) * 4503599627370496 + significand) % 4503599627370496
      = significand := by omega
  have quotient : ((exponent + 1) * 4503599627370496 + significand) / 4503599627370496
      = exponent + 1 := by omega
  unfold units
  rw [significands, if_neg (by omega), modulo, quotient, Nat.add_sub_cancel]
  rfl

/-- A rank is either its own value or splits into an exponent and a significand. -/
theorem rank_cases (rank : Nat) :
    rank < 4503599627370496 ∨
      ∃ exponent significand, significand < 4503599627370496 ∧
        rank = (exponent + 1) * 4503599627370496 + significand := by
  by_cases small : rank < 4503599627370496
  · exact Or.inl small
  · refine Or.inr ⟨rank / 4503599627370496 - 1, rank % 4503599627370496, ?_, ?_⟩
    · exact Nat.mod_lt _ (by decide)
    · omega

/-- The next rank is one unit of the exponent further, also where the next exponent begins. -/
theorem units_succ_of_split {exponent significand : Nat} (h : significand < 4503599627370496) :
    units ((exponent + 1) * 4503599627370496 + significand + 1)
      = (4503599627370496 + significand + 1) * 2 ^ exponent := by
  by_cases next : significand + 1 < 4503599627370496
  · rw [Nat.add_assoc, units_of_split next, Nat.add_assoc]
  · -- the last significand of one exponent is followed by the first of the next
    have split : (exponent + 1) * 4503599627370496 + significand + 1
        = (exponent + 1 + 1) * 4503599627370496 + 0 := by omega
    rw [split, units_of_split (by decide), Nat.pow_succ]
    have last : significand = 4503599627370495 := by omega
    rw [last]
    omega

theorem units_lt_succ (rank : Nat) : units rank < units (rank + 1) := by
  rcases rank_cases rank with small | ⟨exponent, significand, bound, rfl⟩
  · rw [units_of_lt small]
    by_cases next : rank + 1 < 4503599627370496
    · rw [units_of_lt next]
      omega
    · have split : rank + 1 = (0 + 1) * 4503599627370496 + 0 := by omega
      rw [split, units_of_split (by decide)]
      omega
  · rw [units_of_split bound, units_succ_of_split bound]
    exact Nat.mul_lt_mul_of_pos_right (Nat.lt_succ_self _) (Nat.two_pow_pos exponent)

/-- The rank found for the value of a rank is that rank. -/
theorem rankBelow_units (rank : Nat) : rankBelow (units rank) = rank := by
  unfold rankBelow
  rw [significands]
  rcases rank_cases rank with small | ⟨exponent, significand, bound, rfl⟩
  · rw [units_of_lt small]
    have low : rank.log2 ≤ 52 := by
      by_cases zero : rank = 0
      · simp [zero]
      · have : rank.log2 < 52 := (Nat.log2_lt zero).2 small
        omega
    rw [Nat.sub_eq_zero_of_le low]
    simp
  · rw [units_of_split bound]
    have log : ((4503599627370496 + significand) * 2 ^ exponent).log2 = 52 + exponent := by
      have nonzero : (4503599627370496 + significand) * 2 ^ exponent ≠ 0 := by
        have power : 0 < 2 ^ exponent := Nat.two_pow_pos exponent
        exact Nat.mul_ne_zero (by omega) (by omega)
      rw [Nat.log2_eq_iff nonzero]
      constructor
      · rw [Nat.pow_add]
        exact Nat.mul_le_mul_right _ (by omega)
      · rw [Nat.add_right_comm, Nat.pow_add]
        exact Nat.mul_lt_mul_of_pos_right (by omega) (Nat.two_pow_pos exponent)
    rw [log, Nat.add_sub_cancel_left]
    dsimp only
    rw [Nat.shiftRight_eq_div_pow, Nat.mul_div_cancel _ (Nat.two_pow_pos exponent)]
    omega

/-- The rank found for a number of units is the greatest whose value is no more. -/
theorem units_rankBelow (n : Nat) : units (rankBelow n) ≤ n ∧ n < units (rankBelow n + 1) := by
  by_cases small : n < 4503599627370496
  · have same := rankBelow_units n
    rw [units_of_lt small] at same
    have next := units_lt_succ n
    rw [units_of_lt small] at next
    rw [same, units_of_lt small]
    exact ⟨Nat.le_refl n, next⟩
  · have nonzero : n ≠ 0 := by omega
    have least : 52 ≤ n.log2 := (Nat.le_log2 nonzero).2 (by omega)
    obtain ⟨shift, log⟩ := Nat.exists_eq_add_of_le least
    have power : 0 < 2 ^ shift := Nat.two_pow_pos shift
    -- the leading 53 binary digits
    have low : 4503599627370496 ≤ n / 2 ^ shift := by
      rw [Nat.le_div_iff_mul_le power, ← significands]
      have leading := Nat.log2_self_le nonzero
      rwa [log, Nat.pow_add] at leading
    have high : n / 2 ^ shift < 9007199254740992 := by
      rw [Nat.div_lt_iff_lt_mul power]
      have leading := Nat.lt_log2_self (n := n)
      rw [log, Nat.add_right_comm, Nat.pow_add] at leading
      exact leading
    obtain ⟨significand, leading⟩ := Nat.exists_eq_add_of_le low
    have bound : significand < 4503599627370496 := by omega
    have found : rankBelow n = (shift + 1) * 4503599627370496 + significand := by
      unfold rankBelow
      rw [significands, log, Nat.add_sub_cancel_left]
      dsimp only
      rw [Nat.shiftRight_eq_div_pow, leading]
      omega
    rw [found, units_of_split bound, units_succ_of_split bound, ← leading]
    exact ⟨Nat.div_mul_le_self n _, by rw [Nat.mul_comm]; exact Nat.lt_mul_div_succ n power⟩

/-- A quotient whose value is exactly that of a rank is rounded to that rank. -/
theorem nearestRank_exact {num den rank : Nat} (positive : 0 < den)
    (exact : num * Nat.pow 2 1074 = units rank * den) : nearestRank num den = rank := by
  have quotient : num * Nat.pow 2 1074 / den = units rank := by
    rw [exact, Nat.mul_div_cancel _ positive]
  have doubled : 2 * num * Nat.pow 2 1074 = 2 * (units rank * den) := by
    rw [← exact, Nat.mul_assoc]
  have step : units rank * den < units (rank + 1) * den :=
    Nat.mul_lt_mul_of_pos_right (units_lt_succ rank) positive
  unfold nearestRank
  simp only [quotient, rankBelow_units, doubled, Nat.add_mul]
  rw [if_pos (by omega)]

theorem units_eq_zero {rank : Nat} (h : units rank = 0) : rank = 0 := by
  have inverse := rankBelow_units rank
  rw [h] at inverse
  exact inverse.symm.trans (by decide)

end LayeredConfig.Binary64
