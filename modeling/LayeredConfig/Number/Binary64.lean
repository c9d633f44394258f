import LayeredConfig.Number.Numeral

/-!
# Binary floating point numbers of 64 bits

A finite number is a sign and a *rank*: its place among the nonnegative finite values in increasing
order. Rank `r` stands for `units r` units of `2 ^ (-1074)`, so every question about a value is one about
natural numbers. `nearestRank` rounds a quotient to the nearest rank, a tie to the even one.
-/

namespace LayeredConfig

namespace Binary64

/-- The number of finite values of one sign; the rank of infinity, if it had one. -/
def rankCount : Nat := 2047 * Nat.pow 2 52

/-- The value of a rank, in units of `2 ^ (-1074)`. -/
def units (rank : Nat) : Nat :=
  if rank < Nat.pow 2 52 then rank
  else (Nat.pow 2 52 + rank % Nat.pow 2 52) * Nat.pow 2 (rank / Nat.pow 2 52 - 1)

/-- The greatest rank whose value is at most `n` units. -/
def rankBelow (n : Nat) : Nat :=
  let shift := n.log2 - 52
  shift * Nat.pow 2 52 + n >>> shift

/-- The rank nearest to `num / den`, of two equally near ones the even one. -/
def nearestRank (num den : Nat) : Nat :=
  let below := rankBelow (num * Nat.pow 2 1074 / den)
  let doubled := 2 * num * Nat.pow 2 1074
  let middle := (units below + units (below + 1)) * den
  if doubled < middle then below
  else if middle < doubled then below + 1
  else below + below % 2

end Binary64

/-- A binary floating point number: finite, infinite, or no number. What is no number carries a payload, which
tells it from others that arose elsewhere. -/
inductive Binary64 where
  | finite (negative : Bool) (rank : Fin Binary64.rankCount)
  | infinity (negative : Bool)
  | nan (payload : Nat)
  deriving DecidableEq, Repr

namespace Binary64

theorem rankCount_pos : 0 < rankCount :=
  Nat.le_of_ble_eq_true rfl

/-- Zero of either sign. -/
def zero (negative : Bool) : Binary64 :=
  .finite negative ⟨0, rankCount_pos⟩

/-- The number of a rank, infinity when the rank is too high. -/
def ofRank (negative : Bool) (rank : Nat) : Binary64 :=
  if h : rank < rankCount then .finite negative ⟨rank, h⟩ else .infinity negative

/-- The number nearest to `num / den`, infinite when that lies beyond the finite range. -/
def ofQuotient (negative : Bool) (num den : Nat) : Binary64 :=
  ofRank negative (nearestRank num den)

/-- The number nearest to an integer. -/
def ofInt (n : Int) : Binary64 :=
  ofQuotient (decide (n < 0)) n.natAbs 1

/-- The number nearest to `coefficient * 10 ^ scale`. Powers of ten far outside the range are decided
without being computed. -/
def ofDecimal (negative : Bool) (coefficient : Nat) (scale : Int) : Binary64 :=
  if coefficient = 0 then zero negative
  else if 400 < scale then .infinity negative
  else if scale + coefficient.log2 < -401 then zero negative
  else ofQuotient negative (coefficient * Nat.pow 10 scale.toNat) (Nat.pow 10 (-scale).toNat)

/-- The number that a decimal numeral spells. -/
def ofNumeral (n : DecimalNumeral) : Binary64 :=
  ofDecimal n.negative n.coefficient n.scale

/-- Reads the whole text as a decimal numeral and rounds it. -/
def parse? (text : List Char) : Option Binary64 :=
  (DecimalNumeral.parse? text).map ofNumeral

/-- Whether the number is neither infinite nor no number. -/
def isFinite : Binary64 → Bool
  | .finite .. => true
  | _ => false

/-- Whether the number is zero, of either sign. -/
def isZero : Binary64 → Bool
  | .finite _ rank => rank.val == 0
  | _ => false

/-- Numeric equality: the two zeros are equal, and what is no number equals its own copies only. -/
def numericallyEqual (x y : Binary64) : Bool :=
  x == y || (x.isZero && y.isZero)

end Binary64

end LayeredConfig
