/-!
# Decimal numerals

The two spellings of a number in a plain scalar. An *integer numeral* is an optional sign and digits
without a leading zero; a *decimal numeral* is an optional sign, digits with at most one point and at
least one digit, and an optional signed exponent.
-/

namespace LayeredConfig

/-- The value of a run of decimal digits. -/
def digitsValue (digits : List Char) : Nat :=
  digits.foldl (fun value d => 10 * value + (d.toNat - '0'.toNat)) 0

/-- The decimal digits of a natural number, most significant first. -/
def decimalDigits (n : Nat) : List Char :=
  Nat.toDigits 10 n

/-- The decimal text of an integer, with a sign only when it is negative. -/
def integerText (n : Int) : List Char :=
  if n < 0 then '-' :: decimalDigits n.natAbs else decimalDigits n.natAbs

theorem integerText_eq_toString (n : Int) : integerText n = (toString n).toList := by
  cases n with
  | ofNat n => exact String.toList_ofList.symm
  | negSucc n =>
    have negative : integerText (Int.negSucc n) = '-' :: Nat.toDigits 10 (n + 1) := if_pos (Int.negSucc_lt_zero n)
    have shown : (toString (Int.negSucc n)).toList = "-".toList ++ (String.ofList (Nat.toDigits 10 (n + 1))).toList :=
      String.toList_append
    rw [negative, shown, String.toList_ofList]
    simp

/-- The most decimal digits of an integer that are read or shown. -/
def digitLimit : Nat := 4300

/-- Takes an optional sign off the front and says whether it was a minus. -/
def splitSign : List Char → Bool × List Char
  | '-' :: rest => (true, rest)
  | '+' :: rest => (false, rest)
  | rest => (false, rest)

/-- A sign put before a natural number. -/
def signed (negative : Bool) (n : Nat) : Int :=
  if negative then -(n : Int) else n

/-- An integer numeral: its sign and its digits. -/
structure IntegerNumeral where
  negative : Bool
  digits : List Char
  deriving DecidableEq, Repr

namespace IntegerNumeral

/-- Reads the whole text as an integer numeral: a lone zero, or digits that do not start with zero. -/
def parse? (text : List Char) : Option IntegerNumeral :=
  let (negative, digits) := splitSign text
  match digits with
  | [] => none
  | d :: rest =>
    if d.isDigit && rest.all Char.isDigit && (d != '0' || rest.isEmpty) then
      some ⟨negative, digits⟩
    else none

/-- The integer that the numeral spells. -/
def value (n : IntegerNumeral) : Int :=
  signed n.negative (digitsValue n.digits)

end IntegerNumeral

/-- A decimal numeral; `exponent` is absent when none is written, `pointed` tells of a written point. -/
structure DecimalNumeral where
  negative : Bool
  whole : List Char
  pointed : Bool
  fraction : List Char
  exponent : Option Int
  deriving DecidableEq, Repr

namespace DecimalNumeral

/-- Reads what follows the digits: nothing, or an exponent mark, a sign and at least one digit. -/
def parseExponent? : List Char → Option (Option Int)
  | [] => some none
  | mark :: rest =>
    let (negative, digits) := splitSign rest
    if (mark == 'e' || mark == 'E') && !digits.isEmpty && digits.all Char.isDigit then
      some (some (signed negative (digitsValue digits)))
    else none

/-- Reads the whole text as a decimal numeral. -/
def parse? (text : List Char) : Option DecimalNumeral :=
  let (negative, body) := splitSign text
  let whole := body.takeWhile Char.isDigit
  let (pointed, fraction, rest) :=
    match body.dropWhile Char.isDigit with
    | '.' :: rest => (true, rest.takeWhile Char.isDigit, rest.dropWhile Char.isDigit)
    | rest => (false, [], rest)
  if whole.isEmpty && fraction.isEmpty then none
  else (parseExponent? rest).map (⟨negative, whole, pointed, fraction, ·⟩)

/-- The digits read as one natural number, the point left out. -/
def coefficient (n : DecimalNumeral) : Nat :=
  digitsValue (n.whole ++ n.fraction)

/-- The power of ten that scales the coefficient. -/
def scale (n : DecimalNumeral) : Int :=
  n.exponent.getD 0 - n.fraction.length

/-- Whether the numeral has a point or an exponent, which an integer numeral never has. -/
def isFractional (n : DecimalNumeral) : Bool :=
  n.pointed || n.exponent.isSome

end DecimalNumeral

end LayeredConfig
