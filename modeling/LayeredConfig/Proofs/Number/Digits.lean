import LayeredConfig.Number.Int64
import LayeredConfig.Number.Numeral
import Mathlib.Algebra.Group.Nat.Defs

/-!
# Digits of integers

`decimalDigits` writes a natural number so that `digitsValue` reads it back, without a leading zero. The
text of an integer is therefore an integer numeral, and the numeral spells that integer:
`IntegerNumeral.parse?_integerText` and `IntegerNumeral.value_integerText`.
-/

namespace LayeredConfig

/-! ## Runs of digits -/

theorem digitsValue_decimalDigits (n : Nat) : digitsValue (decimalDigits n) = n :=
  Nat.ofDigitChars_ten_toDigits

/-- The digits in front count a factor of ten for each digit behind them. -/
theorem digitsValue_append (front back : List Char) :
    digitsValue (front ++ back) = 10 ^ back.length * digitsValue front + digitsValue back :=
  (Nat.ofDigitChars_append 0).trans Nat.ofDigitChars_eq_ofDigitChars_zero

theorem isDigit_of_mem_decimalDigits {n : Nat} {c : Char} (h : c ∈ decimalDigits n) :
    c.isDigit = true :=
  Nat.isDigit_of_mem_toDigits (by decide) (by decide) h

theorem all_isDigit_decimalDigits (n : Nat) : (decimalDigits n).all Char.isDigit = true :=
  List.all_eq_true.2 fun _ => isDigit_of_mem_decimalDigits

theorem decimalDigits_ne_nil (n : Nat) : decimalDigits n ≠ [] :=
  Nat.toDigits_ne_nil

theorem decimalDigits_injective {m n : Nat} (h : decimalDigits m = decimalDigits n) : m = n := by
  rw [← digitsValue_decimalDigits m, h, digitsValue_decimalDigits]

/-- Only zero begins with a zero, and that is all of it. -/
theorem head_decimalDigits {n : Nat} {d : Char} {rest : List Char}
    (h : decimalDigits n = d :: rest) : d ≠ '0' ∨ rest = [] := by
  induction n using Nat.strongRecOn generalizing d rest with
  | ind n ih =>
    have step := Nat.toDigits_eq_if (b := 10) (n := n) (by decide)
    rw [show Nat.toDigits 10 n = d :: rest from h] at step
    split at step
    · exact Or.inr (List.cons.inj step).2
    · next large =>
      cases front : decimalDigits (n / 10) with
      | nil => exact absurd front (decimalDigits_ne_nil _)
      | cons first others =>
        rw [show Nat.toDigits 10 (n / 10) = first :: others from front] at step
        obtain ⟨rfl, -⟩ := List.cons.inj step
        rcases ih (n / 10) (by omega) front with nonzero | single
        · exact Or.inl nonzero
        · -- a single leading digit is the digit of `n / 10` itself, which is not zero
          refine Or.inl fun zero => ?_
          have value := digitsValue_decimalDigits (n / 10)
          rw [front, single, zero] at value
          have : n / 10 = 0 := by rw [← value]; rfl
          omega

theorem length_decimalDigits_le {n k : Nat} (positive : 0 < k) (h : n < 10 ^ k) :
    (decimalDigits n).length ≤ k :=
  (Nat.length_toDigits_le_iff (by decide) positive).2 h

/-! ## Integer numerals -/

/-- A run of digits has no sign to take off. -/
theorem splitSign_of_isDigit {d : Char} {rest : List Char} (h : d.isDigit = true) :
    splitSign (d :: rest) = (false, d :: rest) := by
  unfold splitSign
  split
  · next same => cases (List.cons.inj same).1; exact absurd h (by decide)
  · next same => cases (List.cons.inj same).1; exact absurd h (by decide)
  · rfl

theorem splitSign_decimalDigits (n : Nat) (more : List Char) :
    splitSign (decimalDigits n ++ more) = (false, decimalDigits n ++ more) := by
  cases digits : decimalDigits n with
  | nil => exact absurd digits (decimalDigits_ne_nil n)
  | cons d rest =>
    exact splitSign_of_isDigit (isDigit_of_mem_decimalDigits (n := n) (by rw [digits]; simp))

theorem splitSign_integerText (n : Int) :
    splitSign (integerText n) = (decide (n < 0), decimalDigits n.natAbs) := by
  unfold integerText
  split
  · next negative => simp [splitSign, negative]
  · next positive =>
    have unsigned := splitSign_decimalDigits n.natAbs []
    rw [List.append_nil] at unsigned
    simp [unsigned, positive]

namespace IntegerNumeral

/-- The text of an integer is an integer numeral. -/
theorem parse?_integerText (n : Int) :
    parse? (integerText n) = some ⟨decide (n < 0), decimalDigits n.natAbs⟩ := by
  unfold parse?
  rw [splitSign_integerText]
  cases digits : decimalDigits n.natAbs with
  | nil => exact absurd digits (decimalDigits_ne_nil _)
  | cons d rest =>
    have all := all_isDigit_decimalDigits n.natAbs
    rw [digits, List.all_cons, Bool.and_eq_true] at all
    have first : (d != '0' || rest.isEmpty) = true := by
      rcases head_decimalDigits digits with nonzero | single
      · simp [nonzero]
      · simp [single]
    simp [all.1, all.2, first]

/-- The numeral that the text of an integer is spells that integer. -/
theorem value_integerText (n : Int) :
    value ⟨decide (n < 0), decimalDigits n.natAbs⟩ = n := by
  unfold value signed
  rw [digitsValue_decimalDigits]
  by_cases negative : n < 0
  · rw [if_pos (decide_eq_true negative)]
    omega
  · rw [if_neg (by rw [decide_eq_true_eq]; exact negative)]
    omega

/-- What an integer numeral consists of: an optional sign and digits. -/
theorem isDigit_of_parse? {text : List Char} {numeral : IntegerNumeral}
    (h : parse? text = some numeral) : (splitSign text).2.all Char.isDigit = true := by
  unfold parse? at h
  cases digits : (splitSign text).2 with
  | nil => rfl
  | cons d rest =>
    simp only [digits] at h
    split at h
    · next spelled =>
      simp only [Bool.and_eq_true] at spelled
      simp [spelled.1.1, spelled.1.2]
    · cases h

theorem digits_of_parse? {text : List Char} {numeral : IntegerNumeral}
    (h : parse? text = some numeral) : numeral.digits = (splitSign text).2 := by
  unfold parse? at h
  dsimp only at h
  split at h
  · cases h
  · split at h
    · cases h
      rfl
    · cases h

end IntegerNumeral

/-- An integer of 64 bits has few digits. -/
theorem length_decimalDigits_int64 (value : Int64) :
    (decimalDigits value.toInt.natAbs).length ≤ digitLimit := by
  have low := Int64.le_toInt value
  have high := Int64.toInt_lt value
  have few : (decimalDigits value.toInt.natAbs).length ≤ 19 :=
    length_decimalDigits_le (by decide) (by omega)
  exact Nat.le_trans few (by decide)

end LayeredConfig
