import LayeredConfig.Number.Shortest
import LayeredConfig.Proofs.Number.Digits
import LayeredConfig.Proofs.Number.Ranks

/-!
# The text of a double reads back

Whatever candidate is chosen, the text of a finite number is a decimal numeral for that number:
`Binary64.parse?_text`. When no candidate reads back the exact value is written out, and that is rounded to
itself. The text has a point or an exponent, so it is never an integer numeral: `isFractional_text`.
-/

namespace LayeredConfig

/-! ## Characters of decimal numerals -/

/-- The characters that a decimal numeral may hold. -/
def isNumeralChar (c : Char) : Bool :=
  c.isDigit || c == '.' || c == 'e' || c == 'E' || c == '+' || c == '-'

theorem isNumeralChar_of_isDigit {c : Char} (h : c.isDigit = true) : isNumeralChar c = true := by
  simp [isNumeralChar, h]

theorem all_isNumeralChar_of_splitSign {text : List Char}
    (h : (splitSign text).2.all isNumeralChar = true) : text.all isNumeralChar = true := by
  unfold splitSign at h
  split at h
  · simpa [isNumeralChar] using h
  · simpa [isNumeralChar] using h
  · exact h

/-- A run of digits in front of something that is no digit is found as it is. -/
theorem takeWhile_isDigit_append {digits more : List Char} (all : digits.all Char.isDigit = true)
    (ends : more.head?.all (fun c => !c.isDigit) = true) :
    (digits ++ more).takeWhile Char.isDigit = digits
      ∧ (digits ++ more).dropWhile Char.isDigit = more := by
  rw [List.all_eq_true] at all
  rw [List.takeWhile_append_of_pos all, List.dropWhile_append_of_pos all]
  cases more with
  | nil => simp
  | cons c rest =>
    have other : c.isDigit = false := by simpa using ends
    simp [other]

namespace DecimalNumeral

theorem all_isNumeralChar_of_parseExponent? {text : List Char} {exponent : Option Int}
    (h : parseExponent? text = some exponent) : text.all isNumeralChar = true := by
  cases text with
  | nil => rfl
  | cons mark rest =>
    simp only [parseExponent?, Option.ite_none_right_eq_some, Bool.and_eq_true] at h
    obtain ⟨⟨⟨mark, -⟩, digits⟩, -⟩ := h
    rw [List.all_cons, Bool.and_eq_true]
    constructor
    · simp only [Bool.or_eq_true, beq_iff_eq] at mark
      rcases mark with rfl | rfl <;> decide
    · apply all_isNumeralChar_of_splitSign
      rw [List.all_eq_true] at digits ⊢
      exact fun c member => isNumeralChar_of_isDigit (digits c member)

/-- How a text spells a decimal numeral: behind the sign stand the whole digits, a point and the fraction
digits if there is a point, and the exponent. -/
structure Spelling (text : List Char) (numeral : DecimalNumeral) (exponent : List Char) : Prop where
  body : (splitSign text).2
    = numeral.whole ++ ((if numeral.pointed then '.' :: numeral.fraction else []) ++ exponent)
  whole : numeral.whole.all Char.isDigit = true
  fraction : numeral.fraction.all Char.isDigit = true
  someDigit : numeral.whole ≠ [] ∨ numeral.fraction ≠ []
  noFraction : numeral.pointed = false → numeral.fraction = []
  exponent : parseExponent? exponent = some numeral.exponent

theorem exists_spelling {text : List Char} {numeral : DecimalNumeral}
    (h : parse? text = some numeral) : ∃ exponent, Spelling text numeral exponent := by
  unfold parse? at h
  cases signed : splitSign text with
  | mk negative body =>
  rw [signed] at h
  dsimp only at h
  have parted : body.takeWhile Char.isDigit ++ body.dropWhile Char.isDigit = body :=
    List.takeWhile_append_dropWhile
  have wholeDigits : (body.takeWhile Char.isDigit).all Char.isDigit = true := List.all_takeWhile
  generalize body.takeWhile Char.isDigit = whole at *
  generalize body.dropWhile Char.isDigit = after at *
  split at h
  · next rest =>
    have tail : rest.takeWhile Char.isDigit ++ rest.dropWhile Char.isDigit = rest :=
      List.takeWhile_append_dropWhile
    simp only [Bool.and_eq_true, List.isEmpty_iff, Option.ite_none_left_eq_some] at h
    obtain ⟨digits, mapped⟩ := h
    obtain ⟨exponent, read, rfl⟩ := Option.map_eq_some_iff.1 mapped
    refine ⟨rest.dropWhile Char.isDigit, ?_, wholeDigits, List.all_takeWhile, ?_, ?_, read⟩
    · rw [signed, ← parted]
      simp [tail]
    · exact Decidable.not_and_iff_or_not.1 digits
    · intro bare
      cases bare
  · simp only [Bool.and_eq_true, List.isEmpty_iff, Option.ite_none_left_eq_some] at h
    obtain ⟨digits, mapped⟩ := h
    obtain ⟨exponent, read, rfl⟩ := Option.map_eq_some_iff.1 mapped
    refine ⟨after, ?_, wholeDigits, rfl, ?_, fun _ => rfl, read⟩
    · rw [signed, ← parted]
      rfl
    · exact Or.inl fun none => digits ⟨none, trivial⟩

namespace Spelling

variable {text exponent : List Char} {numeral : DecimalNumeral}

theorem all_isNumeralChar (spelling : Spelling text numeral exponent) :
    text.all isNumeralChar = true := by
  have digits {run : List Char} (all : run.all Char.isDigit = true) :
      run.all isNumeralChar = true := by
    rw [List.all_eq_true] at all ⊢
    exact fun c member => isNumeralChar_of_isDigit (all c member)
  apply all_isNumeralChar_of_splitSign
  rw [spelling.body]
  simp only [List.all_append, Bool.and_eq_true]
  refine ⟨digits spelling.whole, ?_, all_isNumeralChar_of_parseExponent? spelling.exponent⟩
  split
  · rw [List.all_cons, Bool.and_eq_true]
    exact ⟨by decide, digits spelling.fraction⟩
  · rfl

/-- Behind the sign stands a digit, or a point before a digit. -/
theorem begins (spelling : Spelling text numeral exponent) :
    ∃ c rest, (splitSign text).2 = c :: rest ∧
      (c.isDigit = true ∨ c = '.' ∧ ∃ d more, rest = d :: more ∧ d.isDigit = true) := by
  rw [spelling.body]
  cases whole : numeral.whole with
  | cons c rest =>
    have all := spelling.whole
    rw [whole, List.all_cons, Bool.and_eq_true] at all
    exact ⟨c, _, rfl, Or.inl all.1⟩
  | nil =>
    have fraction : numeral.fraction ≠ [] := spelling.someDigit.resolve_left (by simp [whole])
    have pointed : numeral.pointed = true := by
      rw [← Bool.not_eq_false]
      exact fun bare => fraction (spelling.noFraction bare)
    cases digits : numeral.fraction with
    | nil => exact absurd digits fraction
    | cons d more =>
      have all := spelling.fraction
      rw [digits, List.all_cons, Bool.and_eq_true] at all
      simp only [pointed, if_true, List.nil_append, List.cons_append]
      exact ⟨'.', _, rfl, Or.inr ⟨rfl, d, _, rfl, all.1⟩⟩

/-- A numeral without point and exponent is a row of digits behind the sign. -/
theorem all_isDigit (spelling : Spelling text numeral exponent)
    (bare : numeral.isFractional = false) : (splitSign text).2.all Char.isDigit = true := by
  unfold isFractional at bare
  rw [Bool.or_eq_false_iff] at bare
  have none : exponent = [] := by
    cases exponent with
    | nil => rfl
    | cons mark rest =>
      have read := spelling.exponent
      simp only [parseExponent?, Option.ite_none_right_eq_some] at read
      rw [← Option.some.inj read.2] at bare
      cases bare.2
  rw [spelling.body, bare.1, none]
  simpa using spelling.whole

end Spelling

end DecimalNumeral

/-- Digits, and behind them an exponent or nothing, are a decimal numeral without a point. -/
theorem DecimalNumeral.parse?_of_digits {text digits tail : List Char} {negative : Bool}
    {exponent : Option Int} (signed : splitSign text = (negative, digits ++ tail))
    (nonempty : digits ≠ []) (all : digits.all Char.isDigit = true)
    (ends : tail.head?.all (fun c => !c.isDigit) = true) (noPoint : tail.head? ≠ some '.')
    (read : parseExponent? tail = some exponent) :
    parse? text = some ⟨negative, digits, false, [], exponent⟩ := by
  obtain ⟨front, back⟩ := takeWhile_isDigit_append all ends
  unfold parse?
  rw [signed]
  dsimp only
  rw [front, back]
  split
  · exact absurd rfl noPoint
  · simp [nonempty, read]

namespace Layout

theorem isFractional_of_mem {text : List Char} {numeral : DecimalNumeral} {c : Char}
    (read : DecimalNumeral.parse? text = some numeral) (member : c ∈ text)
    (mark : c = '.' ∨ c = 'e') : numeral.isFractional = true := by
  obtain ⟨exponent, spelling⟩ := DecimalNumeral.exists_spelling read
  rw [← Bool.not_eq_false]
  intro bare
  have digits := spelling.all_isDigit bare
  rw [List.all_eq_true] at digits
  have inBody : c ∈ (splitSign text).2 := by
    unfold splitSign
    split
    · rcases List.mem_cons.1 member with rfl | inRest
      · rcases mark with mark | mark <;> cases mark
      · exact inRest
    · rcases List.mem_cons.1 member with rfl | inRest
      · rcases mark with mark | mark <;> cases mark
      · exact inRest
    · exact member
  have digit := digits c inBody
  rcases mark with rfl | rfl <;> cases digit

/-- The text of a decimal has a point or an exponent. -/
theorem exists_mark_write (layout : Layout) (negative : Bool) (coefficient : Nat) (scale : Int) :
    ∃ c ∈ layout.write negative coefficient scale, c = '.' ∨ c = 'e' := by
  have body : ∃ c ∈ (if coefficient = 0 then ['0', '.', '0']
      else layout.place (significant (decimalDigits coefficient))
        ((decimalDigits coefficient).length + scale - 1)), c = '.' ∨ c = 'e' := by
    split
    · exact ⟨'.', by simp, Or.inl rfl⟩
    · unfold place
      split
      · split
        · exact ⟨'.', by simp, Or.inl rfl⟩
        · exact ⟨'.', by simp, Or.inl rfl⟩
      · exact ⟨'e', by simp, Or.inr rfl⟩
  obtain ⟨c, member, mark⟩ := body
  refine ⟨c, ?_, mark⟩
  unfold write
  dsimp only
  split
  · exact List.mem_cons_of_mem _ member
  · exact member

end Layout

namespace Binary64

/-! ## The exact text -/

theorem parse?_exactText (negative : Bool) (rank : Nat) :
    DecimalNumeral.parse? (exactText negative rank)
      = some ⟨negative, decimalDigits (exactCoefficient rank), false, [], some (-1074)⟩ := by
  have signed : splitSign (exactText negative rank)
      = (negative, decimalDigits (exactCoefficient rank) ++ "e-1074".toList) := by
    cases negative with
    | true => rfl
    | false => exact splitSign_decimalDigits _ _
  exact DecimalNumeral.parse?_of_digits signed (decimalDigits_ne_nil _)
    (all_isDigit_decimalDigits _) (by decide) (by decide) (by decide)

/-- Scaling a value up by a power of five and one of two scales it up by the power of ten. -/
theorem scaled (value e : Nat) :
    value * Nat.pow 5 e * Nat.pow 10 0 * Nat.pow 2 e = value * Nat.pow 10 e := by
  have ten : Nat.pow 10 e = Nat.pow 5 e * Nat.pow 2 e := Nat.mul_pow 5 2 e
  rw [ten, ← Nat.mul_assoc]
  exact congrArg (· * Nat.pow 2 e) (Nat.mul_one _)

theorem eq_zero_of_scaled {value e coefficient : Nat} (same : coefficient = value * Nat.pow 5 e)
    (zero : coefficient = 0) : value = 0 :=
  (Nat.mul_eq_zero.1 (same.symm.trans zero)).resolve_right
    (Nat.ne_of_gt (pow_pos_of_pos (by decide) e))

theorem le_log2_scaled {value d e coefficient : Nat} (h : d ≤ e)
    (same : coefficient = value * Nat.pow 5 e) (nonzero : coefficient ≠ 0) :
    d ≤ coefficient.log2 := by
  have positive : 0 < value :=
    Nat.pos_of_ne_zero fun zero => nonzero (by rw [same, zero, Nat.zero_mul])
  rw [Nat.le_log2 nonzero, same]
  calc 2 ^ d ≤ 5 ^ d := Nat.pow_le_pow_left (by decide) d
    _ ≤ 5 ^ e := Nat.pow_le_pow_right (by decide) h
    _ ≤ value * 5 ^ e := Nat.le_mul_of_pos_left _ positive

/-- The exact value of a rank is rounded to that rank. -/
theorem ofDecimal_exact (negative : Bool) (rank : Fin rankCount) :
    ofDecimal negative (exactCoefficient rank) (-1074) = .finite negative rank := by
  have same : exactCoefficient rank = units rank * Nat.pow 5 1074 := rfl
  unfold ofDecimal
  split
  · next zero =>
    have value : units rank = 0 := eq_zero_of_scaled same zero
    rw [show rank = ⟨0, rankCount_pos⟩ from Fin.ext (units_eq_zero value)]
    rfl
  · next nonzero =>
    have large : 673 ≤ (exactCoefficient rank).log2 := le_log2_scaled (by decide) same nonzero
    have near (n : Nat) (h : 673 ≤ n) : ¬(-1074 + (n : Int) < -401) := by omega
    rw [if_neg (by decide), if_neg (near _ large)]
    have exact : exactCoefficient rank * Nat.pow 10 0 * Nat.pow 2 1074
        = units rank * Nat.pow 10 1074 := by
      rw [same]
      exact scaled _ _
    have rounded : nearestRank (exactCoefficient rank * Nat.pow 10 0) (Nat.pow 10 1074) = rank :=
      nearestRank_exact (pow_pos_of_pos (by decide) 1074) exact
    refine (congrArg (ofRank negative) rounded).trans ?_
    unfold ofRank
    rw [dif_pos rank.isLt]

/-! ## The text of a finite number -/

variable {negative : Bool} {rank : Fin rankCount}

/-- The text of a finite number is a decimal numeral for it, with a point or an exponent. -/
theorem exists_numeral_finiteText (negative : Bool) (rank : Fin rankCount) :
    ∃ numeral, DecimalNumeral.parse? (finiteText negative rank) = some numeral ∧
      ofNumeral numeral = .finite negative rank ∧ numeral.isFractional = true := by
  unfold finiteText
  cases found : (candidates negative rank).find? fun text =>
      parse? text == some (.finite negative rank) with
  | none =>
    exact ⟨_, parse?_exactText negative rank, by
      unfold ofNumeral DecimalNumeral.coefficient DecimalNumeral.scale
      simp only [List.append_nil, digitsValue_decimalDigits, Option.getD_some]
      exact ofDecimal_exact negative rank, rfl⟩
  | some text =>
    have reads := List.find?_some found
    rw [beq_iff_eq] at reads
    obtain ⟨numeral, read, value⟩ := Option.map_eq_some_iff.1 reads
    refine ⟨numeral, read, value, ?_⟩
    obtain ⟨⟨coefficient, scale⟩, -, rfl⟩ := List.mem_map.1 (List.mem_of_find?_eq_some found)
    obtain ⟨c, member, mark⟩ := Layout.exists_mark_write .standard negative coefficient scale
    exact Layout.isFractional_of_mem read member mark

/-- The text of a finite number reads back as that number. -/
theorem parse?_text {x : Binary64} (finite : x.isFinite = true) : parse? x.text = some x := by
  cases x with
  | finite negative rank =>
    obtain ⟨numeral, read, value, -⟩ := exists_numeral_finiteText negative rank
    unfold parse? text
    rw [read, Option.map_some, value]
  | infinity negative => cases finite
  | nan payload => cases finite

/-- Zero is written with zeros only. -/
theorem coefficient_of_zero {numeral : DecimalNumeral}
    (read : DecimalNumeral.parse? (finiteText negative ⟨0, rankCount_pos⟩) = some numeral) :
    numeral.coefficient = 0 := by
  have zeros : (DecimalNumeral.parse? (finiteText negative ⟨0, rankCount_pos⟩)).map
      DecimalNumeral.coefficient = some 0 := by
    cases negative <;> decide +kernel
  rw [read] at zeros
  exact Option.some.inj zeros

end Binary64

end LayeredConfig
