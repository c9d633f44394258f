import LayeredConfig.Proofs.Number.ReadBack
import LayeredConfig.Proofs.Number.Rounding

/-!
# The grammar of numerals

The two kinds of numerals by their rules, apart from the readers: `IntegerNumeral.Spells` and `DecimalNumeral.Spells`
put the text of a numeral together from a sign, digits and an exponent. The readers accept these texts and no others,
and they find the numeral that is spelled (`IntegerNumeral.parse?_eq_some_iff`, `DecimalNumeral.parse?_eq_some_iff`).
`DecimalNumeral.exactValue` is what the digits and the exponent of a decimal numeral stand for, and the numeral becomes
the number that this value is rounded to (`DecimalNumeral.rounds_ofNumeral`).
-/

namespace LayeredConfig

/-! ## Rules -/

/-- A sign may be left out, which means plus. -/
inductive IsSign : List Char → Bool → Prop where
  | absent : IsSign [] false
  | plus : IsSign ['+'] false
  | minus : IsSign ['-'] true

/-- The digits of an integer: a lone zero, or digits that do not begin with zero. -/
inductive IsWhole : List Char → Prop where
  | zero : IsWhole ['0']
  | leading {d : Char} {rest : List Char} (digit : d.isDigit = true) (nonzero : d ≠ '0')
      (all : rest.all Char.isDigit = true) : IsWhole (d :: rest)

/-- How an integer is spelled. -/
inductive IntegerNumeral.Spells : IntegerNumeral → List Char → Prop where
  | mk {sign digits : List Char} {negative : Bool} (isSign : IsSign sign negative) (whole : IsWhole digits) :
      Spells ⟨negative, digits⟩ (sign ++ digits)

/-- Digits with at most one point: those before it, whether it is there, and those behind it. -/
inductive IsMantissa : List Char → List Char → Bool → List Char → Prop where
  | plain {digits : List Char} (all : digits.all Char.isDigit = true) (nonempty : digits ≠ []) :
      IsMantissa digits digits false []
  | pointed {whole fraction : List Char} (all : whole.all Char.isDigit = true)
      (all' : fraction.all Char.isDigit = true) (nonempty : whole ≠ [] ∨ fraction ≠ []) :
      IsMantissa (whole ++ '.' :: fraction) whole true fraction

/-- An exponent may be left out. -/
inductive IsExponent : List Char → Option Int → Prop where
  | absent : IsExponent [] none
  | present {mark : Char} {sign digits : List Char} {negative : Bool} (marks : mark = 'e' ∨ mark = 'E')
      (isSign : IsSign sign negative) (all : digits.all Char.isDigit = true) (nonempty : digits ≠ []) :
      IsExponent (mark :: (sign ++ digits)) (some (signed negative (digitsValue digits)))

/-- How a decimal is spelled. -/
inductive DecimalNumeral.Spells : DecimalNumeral → List Char → Prop where
  | mk {sign mantissa tail whole fraction : List Char} {negative pointed : Bool} {exponent : Option Int}
      (isSign : IsSign sign negative) (isMantissa : IsMantissa mantissa whole pointed fraction)
      (isExponent : IsExponent tail exponent) :
      Spells ⟨negative, whole, pointed, fraction, exponent⟩ (sign ++ (mantissa ++ tail))

/-! ## Signs -/

variable {text sign body digits tail : List Char} {negative : Bool} {exponent : Option Int}

theorem exists_sign (text : List Char) :
    ∃ sign negative body, splitSign text = (negative, body) ∧ IsSign sign negative ∧ text = sign ++ body := by
  unfold splitSign
  split
  · exact ⟨_, _, _, rfl, .minus, rfl⟩
  · exact ⟨_, _, _, rfl, .plus, rfl⟩
  · exact ⟨_, _, _, rfl, .absent, rfl⟩

theorem splitSign_append (isSign : IsSign sign negative) {c : Char} {rest : List Char}
    (begins : c.isDigit = true ∨ c = '.') : splitSign (sign ++ c :: rest) = (negative, c :: rest) := by
  cases isSign with
  | absent =>
    rcases begins with digit | rfl
    · exact splitSign_of_isDigit digit
    · rfl
  | plus => rfl
  | minus => rfl

theorem splitSign_append_digits (isSign : IsSign sign negative) (all : digits.all Char.isDigit = true)
    (nonempty : digits ≠ []) (tail : List Char) :
    splitSign (sign ++ (digits ++ tail)) = (negative, digits ++ tail) := by
  cases digits with
  | nil => exact absurd rfl nonempty
  | cons d rest =>
    rw [List.all_cons, Bool.and_eq_true] at all
    exact splitSign_append isSign (Or.inl all.1)

/-! ## Integers -/

/-- The reader of integers accepts what spells an integer, and finds that integer. -/
theorem IntegerNumeral.parse?_eq_some_iff {numeral : IntegerNumeral} :
    parse? text = some numeral ↔ numeral.Spells text := by
  constructor
  · intro parsed
    obtain ⟨sign, negative, body, split, isSign, rfl⟩ := exists_sign text
    unfold parse? at parsed
    rw [split] at parsed
    cases body with
    | nil => cases parsed
    | cons d rest =>
      simp only [Option.ite_none_right_eq_some, Bool.and_eq_true, Bool.or_eq_true, bne_iff_ne, List.isEmpty_iff]
        at parsed
      obtain ⟨⟨⟨digit, all⟩, first⟩, found⟩ := parsed
      cases found
      refine .mk isSign ?_
      by_cases zero : d = '0'
      · rw [zero, first.resolve_left (absurd zero)]
        exact .zero
      · exact .leading digit zero all
  · rintro ⟨isSign, whole⟩
    unfold parse?
    cases whole with
    | zero => rw [splitSign_append isSign (Or.inl rfl)]; rfl
    | @leading d rest digit nonzero all =>
      rw [splitSign_append isSign (Or.inl digit)]
      simp only [digit, all, bne_iff_ne.2 nonzero, Bool.true_or, Bool.and_self, if_true]

/-! ## Exponents -/

theorem parseExponent?_eq_some_iff :
    DecimalNumeral.parseExponent? tail = some exponent ↔ IsExponent tail exponent := by
  constructor
  · intro parsed
    cases tail with
    | nil =>
      cases parsed
      exact .absent
    | cons mark rest =>
      obtain ⟨sign, negative, digits, split, isSign, rfl⟩ := exists_sign rest
      simp only [DecimalNumeral.parseExponent?, split, Option.ite_none_right_eq_some, Bool.and_eq_true, Bool.or_eq_true,
        beq_iff_eq, Bool.not_eq_true', List.isEmpty_eq_false_iff] at parsed
      obtain ⟨⟨⟨marks, nonempty⟩, all⟩, found⟩ := parsed
      cases found
      exact .present marks isSign all nonempty
  · rintro (_ | ⟨marks, isSign, all, nonempty⟩)
    · rfl
    · have split := splitSign_append_digits isSign all nonempty []
      rw [List.append_nil] at split
      simp only [DecimalNumeral.parseExponent?, split, Option.ite_none_right_eq_some, Bool.and_eq_true, Bool.or_eq_true,
        beq_iff_eq, Bool.not_eq_true', List.isEmpty_eq_false_iff]
      exact ⟨⟨⟨marks, nonempty⟩, all⟩, trivial⟩

/-- What follows the digits of a numeral begins neither with a digit nor with a point. -/
theorem IsExponent.ends (isExponent : IsExponent tail exponent) :
    tail.head?.all (fun c => !c.isDigit) = true ∧ tail.head? ≠ some '.' := by
  cases isExponent with
  | absent => exact ⟨rfl, nofun⟩
  | present marks => rcases marks with rfl | rfl <;> exact ⟨rfl, nofun⟩

/-! ## Decimals -/

namespace DecimalNumeral

variable {whole fraction : List Char} {numeral : DecimalNumeral}

theorem negative_of_parse? (parsed : parse? text = some numeral) : numeral.negative = (splitSign text).1 := by
  unfold parse? at parsed
  dsimp only at parsed
  split at parsed <;>
  · rw [Option.ite_none_left_eq_some] at parsed
    obtain ⟨-, mapped⟩ := parsed
    obtain ⟨exponent, -, rfl⟩ := Option.map_eq_some_iff.1 mapped
    rfl

/-- Digits around a point, and behind them an exponent or nothing, are a decimal numeral with a point. -/
theorem parse?_of_pointed (split : splitSign text = (negative, whole ++ '.' :: (fraction ++ tail)))
    (all : whole.all Char.isDigit = true) (all' : fraction.all Char.isDigit = true)
    (nonempty : whole ≠ [] ∨ fraction ≠ []) (ends : tail.head?.all (fun c => !c.isDigit) = true)
    (read : parseExponent? tail = some exponent) :
    parse? text = some ⟨negative, whole, true, fraction, exponent⟩ := by
  have point : ('.' :: (fraction ++ tail)).head?.all (fun c => !c.isDigit) = true := rfl
  obtain ⟨front, back⟩ := takeWhile_isDigit_append all point
  obtain ⟨front', back'⟩ := takeWhile_isDigit_append all' ends
  have some : ¬(whole = [] ∧ fraction = []) := fun ⟨empty, empty'⟩ => nonempty.elim (absurd empty) (absurd empty')
  unfold parse?
  rw [split]
  simp only [front, back, front', back', read, Bool.and_eq_true, List.isEmpty_iff, some, if_false, Option.map_some]

theorem splitSign_mantissa {pointed : Bool} (isSign : IsSign sign negative)
    (isMantissa : IsMantissa body whole pointed fraction) (tail : List Char) :
    splitSign (sign ++ (body ++ tail)) = (negative, body ++ tail) := by
  cases isMantissa with
  | plain all nonempty => exact splitSign_append_digits isSign all nonempty tail
  | pointed all all' nonempty =>
    rw [List.append_assoc]
    by_cases empty : whole = []
    · rw [empty]
      exact splitSign_append isSign (Or.inr rfl)
    · exact splitSign_append_digits isSign all empty _

/-- The reader of decimals accepts what spells a decimal, and finds that decimal. -/
theorem parse?_eq_some_iff : parse? text = some numeral ↔ numeral.Spells text := by
  constructor
  · intro parsed
    have sameSign := negative_of_parse? parsed
    obtain ⟨tail, spelling⟩ := exists_spelling parsed
    obtain ⟨sign, negative, behind, split, isSign, rfl⟩ := exists_sign text
    obtain ⟨negative', whole, pointed, fraction, exponent⟩ := numeral
    obtain ⟨body, all, all', nonempty, noFraction, read⟩ := spelling
    rw [split] at sameSign body
    dsimp only at *
    subst sameSign body
    have isExponent := parseExponent?_eq_some_iff.1 read
    cases pointed with
    | false =>
      have none : fraction = [] := noFraction rfl
      subst none
      exact .mk isSign (.plain all (nonempty.resolve_right (absurd rfl))) isExponent
    | true =>
      have spells := Spells.mk isSign (.pointed all all' nonempty) isExponent
      rwa [List.append_assoc] at spells
  · rintro ⟨isSign, isMantissa, isExponent⟩
    have read := parseExponent?_eq_some_iff.2 isExponent
    obtain ⟨ends, noPoint⟩ := isExponent.ends
    have split := splitSign_mantissa isSign isMantissa
    cases isMantissa with
    | plain all nonempty => exact parse?_of_digits (split _) nonempty all ends noPoint read
    | pointed all all' nonempty =>
      refine parse?_of_pointed ?_ all all' nonempty ends read
      rw [split, List.append_assoc, List.cons_append]

/-! ## Exact values -/

/-- The value that the digits and the exponent stand for, the sign left out. -/
def exactValue (n : DecimalNumeral) : ℚ :=
  (digitsValue n.whole + digitsValue n.fraction / 10 ^ n.fraction.length) * 10 ^ n.exponent.getD 0

theorem exactValue_eq (n : DecimalNumeral) : n.exactValue = n.coefficient * 10 ^ n.scale := by
  have shift : (10 : ℚ) ^ n.fraction.length ≠ 0 := pow_ne_zero _ (by norm_num)
  rw [exactValue, scale, coefficient, digitsValue_append, zpow_sub₀ (by norm_num), zpow_natCast]
  push_cast
  field_simp

theorem exactValue_eq_zero_iff {n : DecimalNumeral} : n.exactValue = 0 ↔ n.coefficient = 0 := by
  rw [exactValue_eq, mul_eq_zero, Nat.cast_eq_zero, or_iff_left (Binary64.zpow_ten_pos _).ne']

/-- A decimal is turned into the number that its exact value is rounded to. -/
theorem rounds_ofNumeral (n : DecimalNumeral) : Binary64.Rounds n.negative n.exactValue (Binary64.ofNumeral n) := by
  rw [exactValue_eq]
  exact Binary64.rounds_ofDecimal n.negative n.coefficient n.scale

end DecimalNumeral

end LayeredConfig
