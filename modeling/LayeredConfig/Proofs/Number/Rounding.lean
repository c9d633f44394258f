import LayeredConfig.Proofs.Number.Ranks
import Mathlib.Tactic.FieldSimp
import Mathlib.Tactic.Linarith
import Mathlib.Tactic.Ring

/-!
# Rounding to the nearest number

`Rounds` says which binary number an exact value is rounded to: the nearest one, of two equally near ones the even one,
and infinity where the nearest would be beyond the finite range if exponents went on there. A value is rounded to one
number (`Rounds.unique`), and `Binary64.ofDecimal` finds it for every decimal (`rounds_ofDecimal`), also where it does
not compute the power of ten.
-/

namespace LayeredConfig.Binary64

/-! ## Values of ranks -/

/-- The exact value of a rank. Ranks from `rankCount` on have the values of numbers with greater exponents. -/
def value (rank : ℕ) : ℚ :=
  units rank / (Nat.pow 2 1074 : ℕ)

theorem unit_pos : (0 : ℚ) < (Nat.pow 2 1074 : ℕ) :=
  Nat.cast_pos.2 (by decide +kernel)

theorem units_strictMono : StrictMono units :=
  strictMono_nat_of_lt_succ units_lt_succ

theorem value_strictMono : StrictMono value := by
  intro rank other less
  have fewer : (units rank : ℚ) < units other := Nat.cast_lt.2 (units_strictMono less)
  exact div_lt_div_of_pos_right fewer unit_pos

theorem value_zero : value 0 = 0 := by
  have none : units 0 = 0 := rfl
  rw [value, none, Nat.cast_zero, zero_div]

/-- A rank is nearest to an exact value, and it is even if another one is equally near. -/
structure Nearest (exact : ℚ) (rank : ℕ) : Prop where
  nearest : ∀ other, |value rank - exact| ≤ |value other - exact|
  even : ∀ other, other ≠ rank → |value rank - exact| = |value other - exact| → rank % 2 = 0

/-- What an exact value behind a sign is rounded to. -/
def Rounds (negative : Bool) (exact : ℚ) (x : Binary64) : Prop :=
  ∃ rank, Nearest exact rank ∧ x = ofRank negative rank

variable {exact : ℚ} {rank other below : ℕ} {negative : Bool} {x y : Binary64}

/-! ## A nearest rank is the only one -/

/-- No rank whose value is no more than the exact one is beyond a nearest rank. -/
theorem Nearest.le_of_value_le (nearest : Nearest exact rank) (low : value other ≤ exact) : other ≤ rank := by
  by_contra beyond
  have less : value rank < value other := value_strictMono (not_le.1 beyond)
  have near := nearest.nearest other
  rw [abs_of_nonpos (by linarith), abs_of_nonpos (by linarith)] at near
  linarith

theorem Nearest.value_le_of_lt (nearest : Nearest exact rank) (less : rank < other) : exact ≤ value other := by
  by_contra low
  exact absurd (nearest.le_of_value_le (le_of_lt (not_le.1 low))) (not_le.2 less)

theorem Nearest.not_lt (first : Nearest exact rank) (second : Nearest exact other) : ¬rank < other := by
  intro less
  have high := first.value_le_of_lt less
  have low : value rank < value other := value_strictMono less
  have same : |value rank - exact| = |value other - exact| := le_antisymm (first.nearest other) (second.nearest rank)
  -- nothing lies between them, so one of the two is odd
  have adjacent : other ≤ rank + 1 := by
    by_contra apart
    have inner : value rank < value (rank + 1) := value_strictMono (Nat.lt_succ_self rank)
    have outer : value (rank + 1) < value other := value_strictMono (not_le.1 apart)
    have above := first.value_le_of_lt (Nat.lt_succ_self rank)
    have near := second.nearest (rank + 1)
    rw [abs_of_nonneg (by linarith), abs_of_nonneg (by linarith)] at near
    linarith
  have even := first.even other (Nat.ne_of_gt less) same
  have even' := second.even rank (Nat.ne_of_lt less) same.symm
  omega

theorem Nearest.unique (first : Nearest exact rank) (second : Nearest exact other) : rank = other :=
  Nat.le_antisymm (Nat.not_lt.1 (second.not_lt first)) (Nat.not_lt.1 (first.not_lt second))

/-- An exact value is rounded to one number. -/
theorem Rounds.unique (first : Rounds negative exact x) (second : Rounds negative exact y) : x = y := by
  obtain ⟨rank, nearest, rfl⟩ := first
  obtain ⟨other, nearest', rfl⟩ := second
  rw [nearest.unique nearest']

/-! ## The nearest rank of a quotient -/

/-- Of two neighbours the lower one is nearest if it is nearer, or equally near and even. -/
theorem nearest_lower (low : value below ≤ exact)
    (near : exact - value below ≤ value (below + 1) - exact)
    (even : exact - value below = value (below + 1) - exact → below % 2 = 0) : Nearest exact below := by
  have distance : |value below - exact| = exact - value below := by
    rw [abs_sub_comm, abs_of_nonneg (by linarith)]
  have lesser (other : ℕ) (less : other < below) : exact - value below < |value other - exact| := by
    have lower : value other < value below := value_strictMono less
    rw [abs_sub_comm, abs_of_nonneg (by linarith)]
    linarith
  have greater (other : ℕ) (more : below < other) : value (below + 1) - exact ≤ |value other - exact| := by
    have upper : value (below + 1) ≤ value other := value_strictMono.monotone more
    exact le_trans (by linarith) (le_abs_self _)
  constructor
  · intro other
    rw [distance]
    rcases Nat.lt_trichotomy other below with less | rfl | more
    · exact le_of_lt (lesser other less)
    · exact le_of_eq distance.symm
    · exact near.trans (greater other more)
  · intro other apart same
    rw [distance] at same
    rcases Nat.lt_or_gt_of_ne apart with less | more
    · exact absurd same (ne_of_lt (lesser other less))
    · exact even (le_antisymm near ((greater other more).trans_eq same.symm))

/-- Of two neighbours the upper one is nearest if it is nearer, or equally near and even. -/
theorem nearest_upper (high : exact ≤ value (below + 1))
    (near : value (below + 1) - exact ≤ exact - value below)
    (even : value (below + 1) - exact = exact - value below → (below + 1) % 2 = 0) : Nearest exact (below + 1) := by
  have distance : |value (below + 1) - exact| = value (below + 1) - exact := abs_of_nonneg (by linarith)
  have lesser (other : ℕ) (less : other < below + 1) : exact - value below ≤ |value other - exact| := by
    have lower : value other ≤ value below := value_strictMono.monotone (Nat.lt_succ_iff.1 less)
    rw [abs_sub_comm]
    exact le_trans (by linarith) (le_abs_self _)
  have greater (other : ℕ) (more : below + 1 < other) : value (below + 1) - exact < |value other - exact| := by
    have upper : value (below + 1) < value other := value_strictMono more
    exact lt_of_lt_of_le (by linarith) (le_abs_self _)
  constructor
  · intro other
    rw [distance]
    rcases Nat.lt_trichotomy other (below + 1) with less | rfl | more
    · exact near.trans (lesser other less)
    · exact le_of_eq distance.symm
    · exact le_of_lt (greater other more)
  · intro other apart same
    rw [distance] at same
    rcases Nat.lt_or_gt_of_ne apart with less | more
    · exact even (le_antisymm near ((lesser other less).trans_eq same.symm))
    · exact absurd same (ne_of_lt (greater other more))

variable {num den low high : ℕ}

theorem value_le_iff (positive : 0 < den) :
    value rank ≤ num / den ↔ units rank * den ≤ num * Nat.pow 2 1074 := by
  have unit := unit_pos
  unfold value
  generalize Nat.pow 2 1074 = unit at *
  rw [div_le_div_iff₀ unit (Nat.cast_pos.2 positive), ← Nat.cast_mul, ← Nat.cast_mul, Nat.cast_le]

theorem le_value_iff (positive : 0 < den) :
    num / den ≤ value rank ↔ num * Nat.pow 2 1074 ≤ units rank * den := by
  have unit := unit_pos
  unfold value
  generalize Nat.pow 2 1074 = unit at *
  rw [div_le_div_iff₀ (Nat.cast_pos.2 positive) unit, ← Nat.cast_mul, ← Nat.cast_mul, Nat.cast_le]

/-- What a fraction lacks to the higher of two values and what it has over the lower one, compared without division. -/
theorem gap_eq (positive : 0 < den) :
    (value high - num / den) - (num / den - value low)
      = (((units low + units high) * den : ℕ) - (2 * num * Nat.pow 2 1074 : ℕ) : ℚ) / (den * (Nat.pow 2 1074 : ℕ)) := by
  have base : (0 : ℚ) < den := Nat.cast_pos.2 positive
  have scale := unit_pos
  unfold value
  generalize Nat.pow 2 1074 = unit at *
  push_cast
  field_simp
  ring

theorem nearer_iff (positive : 0 < den) :
    num / den - value low < value high - num / den ↔ 2 * num * Nat.pow 2 1074 < (units low + units high) * den := by
  have area : (0 : ℚ) < den * (Nat.pow 2 1074 : ℕ) := mul_pos (Nat.cast_pos.2 positive) unit_pos
  rw [← sub_pos, gap_eq positive, lt_div_iff₀ area, zero_mul, sub_pos, Nat.cast_lt]

theorem farther_iff (positive : 0 < den) :
    value high - num / den < num / den - value low ↔ (units low + units high) * den < 2 * num * Nat.pow 2 1074 := by
  have area : (0 : ℚ) < den * (Nat.pow 2 1074 : ℕ) := mul_pos (Nat.cast_pos.2 positive) unit_pos
  rw [← sub_neg, gap_eq positive, div_lt_iff₀ area, zero_mul, sub_neg, Nat.cast_lt]

/-- A fraction lies between two neighbours, of which the nearer one is found, or the even one. -/
theorem exists_neighbours (num : ℕ) (positive : 0 < den) :
    ∃ below, value below ≤ num / den ∧ num / den ≤ value (below + 1) ∧
      nearestRank num den
        = if 2 * num * Nat.pow 2 1074 < (units below + units (below + 1)) * den then below
          else if (units below + units (below + 1)) * den < 2 * num * Nat.pow 2 1074 then below + 1
          else below + below % 2 := by
  obtain ⟨low, high⟩ := units_rankBelow (num * Nat.pow 2 1074 / den)
  rw [Nat.le_div_iff_mul_le positive] at low
  rw [Nat.div_lt_iff_lt_mul positive] at high
  exact ⟨_, (value_le_iff positive).2 low, (le_value_iff positive).2 (Nat.le_of_lt high), rfl⟩

/-- The rank found for a quotient is nearest to it. -/
theorem nearest_nearestRank (num : ℕ) (positive : 0 < den) : Nearest (num / den) (nearestRank num den) := by
  obtain ⟨below, low, high, found⟩ := exists_neighbours num positive
  rw [found]
  by_cases lower : 2 * num * Nat.pow 2 1074 < (units below + units (below + 1)) * den
  · have nearer := (nearer_iff positive).2 lower
    rw [if_pos lower]
    exact nearest_lower low nearer.le fun tie => absurd tie nearer.ne
  · have notNearer := mt (nearer_iff positive).1 lower
    rw [if_neg lower]
    by_cases upper : (units below + units (below + 1)) * den < 2 * num * Nat.pow 2 1074
    · have nearer := (farther_iff positive).2 upper
      rw [if_pos upper]
      exact nearest_upper high nearer.le fun tie => absurd tie nearer.ne
    · have notFarther := mt (farther_iff positive).1 upper
      have tie := le_antisymm (not_lt.1 notFarther) (not_lt.1 notNearer)
      rw [if_neg upper]
      rcases Nat.mod_two_eq_zero_or_one below with even | odd
      · rw [even]
        exact nearest_lower low tie.le fun _ => even
      · rw [odd]
        exact nearest_upper high tie.ge fun _ => Nat.succ_mod_two_eq_zero_iff.2 odd

theorem nearest_zero : Nearest 0 0 := by
  refine ⟨fun other => ?_, fun _ _ _ => rfl⟩
  rw [value_zero, sub_zero, abs_zero]
  exact abs_nonneg _

/-! ## Decimals -/

variable {coefficient : ℕ} {scale : ℤ}

theorem zpow_eq_div (scale : ℤ) :
    (10 : ℚ) ^ scale = (Nat.pow 10 scale.toNat : ℕ) / (Nat.pow 10 (-scale).toNat : ℕ) := by
  have up : ((Nat.pow 10 scale.toNat : ℕ) : ℚ) = 10 ^ scale.toNat := Nat.cast_pow 10 _
  have down : ((Nat.pow 10 (-scale).toNat : ℕ) : ℚ) = 10 ^ (-scale).toNat := Nat.cast_pow 10 _
  rw [up, down, ← zpow_natCast, ← zpow_natCast, ← zpow_sub₀ (by norm_num), Int.toNat_sub_toNat_neg]

theorem zpow_ten_pos (scale : ℤ) : (0 : ℚ) < 10 ^ scale :=
  zpow_pos (by norm_num) scale

theorem zpow_ten_le {scale' : ℤ} (less : scale ≤ scale') : (10 : ℚ) ^ scale ≤ 10 ^ scale' :=
  zpow_le_zpow_right₀ (by norm_num) less

/-- A decimal is a quotient of natural numbers. -/
theorem nearest_decimal (coefficient : ℕ) (scale : ℤ) :
    Nearest (coefficient * 10 ^ scale)
      (nearestRank (coefficient * Nat.pow 10 scale.toNat) (Nat.pow 10 (-scale).toNat)) := by
  have positive : 0 < Nat.pow 10 (-scale).toNat := pow_pos_of_pos (by decide) _
  have nearest := nearest_nearestRank (coefficient * Nat.pow 10 scale.toNat) positive
  rwa [Nat.cast_mul, mul_div_assoc, ← zpow_eq_div] at nearest

/-- A decimal with a great power of ten is beyond the finite range. -/
theorem value_rankCount_le (nonzero : coefficient ≠ 0) (great : 400 < scale) :
    value rankCount ≤ coefficient * 10 ^ scale := by
  have bound : value rankCount ≤ 10 ^ (400 : ℤ) := by
    rw [zpow_eq_div, value_le_iff (pow_pos_of_pos (by decide) _)]
    decide +kernel
  have least : (1 : ℚ) ≤ coefficient := Nat.one_le_cast.2 (Nat.one_le_iff_ne_zero.2 nonzero)
  calc value rankCount ≤ 10 ^ (400 : ℤ) := bound
    _ ≤ 10 ^ scale := zpow_ten_le great.le
    _ ≤ coefficient * 10 ^ scale := le_mul_of_one_le_left (zpow_ten_pos scale).le least

/-- A decimal with few digits and a small power of ten is less than half of the least number that is not zero. -/
theorem two_mul_lt_value_one (small : scale + coefficient.log2 < -401) :
    2 * (coefficient * 10 ^ scale) < value 1 := by
  have bound : (10 : ℚ) ^ (-400 : ℤ) ≤ value 1 := by
    rw [zpow_eq_div, le_value_iff (pow_pos_of_pos (by decide) _)]
    decide +kernel
  have digits : (coefficient : ℚ) < 10 ^ ((coefficient.log2 : ℤ) + 1) := by
    have binary : coefficient < 10 ^ (coefficient.log2 + 1) :=
      Nat.lt_of_lt_of_le Nat.lt_log2_self (Nat.pow_le_pow_left (by decide) _)
    exact_mod_cast binary
  have less : (coefficient : ℚ) * 10 ^ scale < 10 ^ (-401 : ℤ) :=
    calc (coefficient : ℚ) * 10 ^ scale < 10 ^ ((coefficient.log2 : ℤ) + 1) * 10 ^ scale :=
          mul_lt_mul_of_pos_right digits (zpow_ten_pos scale)
      _ = 10 ^ ((coefficient.log2 : ℤ) + 1 + scale) := (zpow_add₀ (by norm_num) _ _).symm
      _ ≤ 10 ^ (-401 : ℤ) := zpow_ten_le (by omega)
  have next : (10 : ℚ) ^ (-400 : ℤ) = 10 * 10 ^ (-401 : ℤ) := zpow_one_add₀ (by norm_num) (-401)
  have positive := zpow_ten_pos (-401)
  linarith

/-- The number that a decimal is turned into is the one that its exact value is rounded to. -/
theorem rounds_ofDecimal (negative : Bool) (coefficient : ℕ) (scale : ℤ) :
    Rounds negative (coefficient * 10 ^ scale) (ofDecimal negative coefficient scale) := by
  unfold ofDecimal
  split
  · next zero =>
    rw [zero, Nat.cast_zero, zero_mul]
    exact ⟨0, nearest_zero, rfl⟩
  · next nonzero =>
    have nearest := nearest_decimal coefficient scale
    split
    · next great =>
      have beyond := nearest.le_of_value_le (value_rankCount_le nonzero great)
      refine ⟨_, nearest, ?_⟩
      rw [ofRank, dif_neg (Nat.not_lt.2 beyond)]
    · split
      · next small =>
        refine ⟨0, ?_, rfl⟩
        have half := two_mul_lt_value_one small
        have positive : (0 : ℚ) ≤ coefficient * 10 ^ scale := mul_nonneg coefficient.cast_nonneg (zpow_ten_pos scale).le
        exact nearest_lower (by rwa [value_zero]) (by rw [value_zero]; linarith) fun _ => rfl
      · exact ⟨_, nearest, rfl⟩

end LayeredConfig.Binary64
