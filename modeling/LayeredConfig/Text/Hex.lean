/-!
# Hexadecimal digits
-/

namespace LayeredConfig.Text

/-- The value of a hexadecimal digit, in either case. -/
def hexDigit? (c : Char) : Option Nat :=
  if '0' ≤ c ∧ c ≤ '9' then some (c.toNat - '0'.toNat)
  else if 'a' ≤ c ∧ c ≤ 'f' then some (c.toNat - 'a'.toNat + 10)
  else if 'A' ≤ c ∧ c ≤ 'F' then some (c.toNat - 'A'.toNat + 10)
  else none

/-- Whether a character is a hexadecimal digit. -/
def isHexDigit (c : Char) : Bool :=
  (hexDigit? c).isSome

/-- The value of a run of hexadecimal digits. -/
def hexValue (digits : List Char) : Nat :=
  digits.foldl (fun value d => 16 * value + (hexDigit? d).getD 0) 0

/-- The lowercase digits of a number, exactly `width` of them. -/
def hexText : Nat → Nat → List Char
  | 0, _ => []
  | width + 1, n => hexText width (n / 16) ++ [Nat.digitChar (n % 16)]

theorem bounds_of_hexDigit? {d : Char} {value : Nat} (digit : hexDigit? d = some value) :
    value < 16 ∧ 48 ≤ d.toNat ∧ d.toNat ≤ 102 := by
  unfold hexDigit? at digit
  split at digit
  · next range =>
    have bounds : 48 ≤ d.toNat ∧ d.toNat ≤ 57 := range
    have same : d.toNat - 48 = value := Option.some.inj digit
    omega
  · split at digit
    · next range =>
      have bounds : 97 ≤ d.toNat ∧ d.toNat ≤ 102 := range
      have same : d.toNat - 97 + 10 = value := Option.some.inj digit
      omega
    · split at digit
      · next range =>
        have bounds : 65 ≤ d.toNat ∧ d.toNat ≤ 70 := range
        have same : d.toNat - 65 + 10 = value := Option.some.inj digit
        omega
      · cases digit

end LayeredConfig.Text
