import LayeredConfig.Number.Binary64

/-!
# The shortest text of a binary number

A finite number is written with the fewest significant digits that read back as the same number, the
nearest such decimal winning. `Layout` holds the decisions of the format; `Binary64.text` tries one to
seventeen digits and takes the first text that `Binary64.parse?` reads back.
-/

namespace LayeredConfig

/-- How a decimal is laid out: the decimal exponents written positionally, and the least number of
exponent digits. -/
structure Layout where
  leastPositional : Int
  firstScientific : Int
  exponentDigits : Nat

namespace Layout

/-- Positional from `0.0001` up to below `10 ^ 16`, and an exponent of at least two digits. -/
def standard : Layout := ⟨-4, 16, 2⟩

/-- An exponent with its sign and at least the wanted number of digits. -/
def exponentText (layout : Layout) (exponent : Int) : List Char :=
  let digits := decimalDigits exponent.natAbs
  (if exponent < 0 then '-' else '+') :: List.replicate (layout.exponentDigits - digits.length) '0'
    ++ digits

/-- Lays out the digits `d₀d₁d₂…` as the number `d₀.d₁d₂… * 10 ^ exponent`. -/
def place (layout : Layout) (digits : List Char) (exponent : Int) : List Char :=
  if layout.leastPositional ≤ exponent ∧ exponent < layout.firstScientific then
    if exponent < 0 then
      '0' :: '.' :: List.replicate (-exponent - 1).toNat '0' ++ digits
    else
      let point := exponent.toNat + 1
      let whole := digits.take point ++ List.replicate (point - digits.length) '0'
      let fraction := digits.drop point
      whole ++ '.' :: (if fraction.isEmpty then ['0'] else fraction)
  else
    digits.take 1 ++ (if digits.length ≤ 1 then [] else '.' :: digits.drop 1)
      ++ 'e' :: layout.exponentText exponent

/-- The digits without the zeros at their end. -/
def significant (digits : List Char) : List Char :=
  (digits.reverse.dropWhile (· == '0')).reverse

/-- The text of `coefficient * 10 ^ scale`. -/
def write (layout : Layout) (negative : Bool) (coefficient : Nat) (scale : Int) : List Char :=
  let digits := decimalDigits coefficient
  let body :=
    if coefficient = 0 then ['0', '.', '0']
    else layout.place (significant digits) (digits.length + scale - 1)
  if negative then '-' :: body else body

end Layout

namespace Binary64

/-- The digits of the exact value of a rank, as a multiple of `10 ^ (-1074)`. -/
def exactCoefficient (rank : Nat) : Nat :=
  units rank * Nat.pow 5 1074

/-- The decimals of `count` digits next to an exact value of `length` digits, the nearer one first; of two
equally near ones, the even one. A decimal is a coefficient and a scale. -/
def neighbours (exact length count : Nat) : List (Nat × Int) :=
  let step := Nat.pow 10 (length - count)
  let below := exact / step
  let rest := exact % step
  let scale : Int := (length - count : Nat) - 1074
  if rest = 0 then [(below, scale)]
  else if 2 * rest < step ∨ 2 * rest = step ∧ below % 2 = 0 then [(below, scale), (below + 1, scale)]
  else [(below + 1, scale), (below, scale)]

/-- The texts that may stand for a number, in the order in which they are tried. -/
def candidates (negative : Bool) (rank : Nat) : List (List Char) :=
  let exact := exactCoefficient rank
  let length := (decimalDigits exact).length
  ((List.range 17).flatMap fun n => neighbours exact length (n + 1)).map
    fun (coefficient, scale) => Layout.standard.write negative coefficient scale

/-- The exact value with every digit written out, as an integer times a power of ten. -/
def exactText (negative : Bool) (rank : Nat) : List Char :=
  let body := decimalDigits (exactCoefficient rank) ++ "e-1074".toList
  if negative then '-' :: body else body

/-- The text of a finite number: the first candidate that reads back as that number. -/
def finiteText (negative : Bool) (rank : Fin rankCount) : List Char :=
  ((candidates negative rank).find? fun text =>
    parse? text == some (.finite negative rank)).getD (exactText negative rank)

/-- The text of a number. -/
def text : Binary64 → List Char
  | .finite negative rank => finiteText negative rank
  | .infinity negative => if negative then "-inf".toList else "inf".toList
  | .nan _ => "nan".toList

end Binary64

end LayeredConfig
