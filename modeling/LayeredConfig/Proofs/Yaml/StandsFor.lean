import LayeredConfig.Proofs.Number.Grammar
import LayeredConfig.Proofs.Yaml.Writing

/-!
# What a plain text stands for

`StandsFor` says by rules what a text is read as: `null` or a boolean for a word in any ASCII case, an integer for its
spelling, a decimal for the number that its exact value is rounded to. `Scalar.read` finds what a text stands for, and
leaves it a string if that is nothing else; only integers with too many digits are not read. The texts that are written
for scalars stand for these scalars (`read_iff_standsFor`).
-/

namespace LayeredConfig.Yaml.Scalar

variable {text word : List Char} {node : Tree} {value : Int64} {x : Binary64}

/-! ## Words in any case -/

/-- A text is a word with some of its letters in upper case. -/
def IsVariant (word text : List Char) : Prop :=
  List.Forall₂ (fun letter c => c = letter ∨ c = letter.toUpper) word text

theorem toLower_of_not_upper {c : Char} (other : ¬(65 ≤ c.toNat ∧ c.toNat ≤ 90)) : c.toLower = c := by
  unfold Char.toLower
  exact dif_neg other

theorem toUpper_of_not_lower {c : Char} (other : ¬(97 ≤ c.toNat ∧ c.toNat ≤ 122)) : c.toUpper = c := by
  unfold Char.toUpper
  exact dif_neg other

theorem toUpper_toLower {c : Char} (upper : 65 ≤ c.toNat ∧ c.toNat ≤ 90) : c.toLower.toUpper = c := by
  have letters : ∀ n < 91, 65 ≤ n → (Char.ofNat n).toLower.toUpper = Char.ofNat n := by decide
  rw [← Char.ofNat_toNat c]
  exact letters c.toNat (Nat.lt_succ_of_le upper.2) upper.1

theorem toLower_toUpper {c : Char} (lower : 97 ≤ c.toNat ∧ c.toNat ≤ 122) : c.toUpper.toLower = c := by
  have letters : ∀ n < 123, 97 ≤ n → (Char.ofNat n).toUpper.toLower = Char.ofNat n := by decide
  rw [← Char.ofNat_toNat c]
  exact letters c.toNat (Nat.lt_succ_of_le lower.2) lower.1

theorem toLower_eq_iff {letter c : Char} (lower : letter.toLower = letter) :
    c.toLower = letter ↔ c = letter ∨ c = letter.toUpper := by
  constructor
  · rintro rfl
    by_cases upper : 65 ≤ c.toNat ∧ c.toNat ≤ 90
    · exact Or.inr (toUpper_toLower upper).symm
    · exact Or.inl (toLower_of_not_upper upper).symm
  · rintro (rfl | rfl)
    · exact lower
    · by_cases letters : 97 ≤ letter.toNat ∧ letter.toNat ≤ 122
      · exact toLower_toUpper letters
      · rw [toUpper_of_not_lower letters, lower]

theorem map_toLower_eq_iff (lower : word.map Char.toLower = word) :
    text.map Char.toLower = word ↔ IsVariant word text := by
  unfold IsVariant
  induction word generalizing text with
  | nil => rw [List.map_eq_nil_iff, List.forall₂_nil_left_iff]
  | cons letter rest ih =>
    rw [List.map_cons, List.cons.injEq] at lower
    cases text with
    | nil => exact ⟨nofun, nofun⟩
    | cons c more => rw [List.map_cons, List.cons.injEq, List.forall₂_cons, toLower_eq_iff lower.1, ih lower.2]

/-! ## Classes -/

/-- What a text stands for, if it is more than a string: a word, an integer that fits 64 bits, or a decimal that is
rounded neither to infinity nor from another value to zero. -/
inductive StandsFor (text : List Char) : Tree → Prop where
  | null {word : List Char} (names : word = "null".toList ∨ word = "~".toList) (variant : IsVariant word text) :
      StandsFor text .null
  | bool {value : Bool} (variant : IsVariant (if value then "true".toList else "false".toList) text) :
      StandsFor text (.bool value)
  | int {numeral : IntegerNumeral} {value : Int64} (spells : numeral.Spells text)
      (fits : value.toInt = numeral.value) : StandsFor text (.int value)
  | double {numeral : DecimalNumeral} {x : Binary64} (spells : numeral.Spells text)
      (fractional : numeral.isFractional = true) (rounds : Binary64.Rounds numeral.negative numeral.exactValue x)
      (finite : x.isFinite = true) (kept : x.isZero = true → numeral.exactValue = 0) : StandsFor text (.double x)

/-- A text is an integer with more digits than are read. -/
def IsTooLong (text : List Char) : Prop :=
  ∃ numeral : IntegerNumeral, numeral.Spells text ∧ 4300 < numeral.digits.length

theorem isOverlong_iff : IsOverlong text ↔ IsTooLong text :=
  exists_congr fun _ => and_congr_left' IntegerNumeral.parse?_eq_some_iff

theorem not_standsFor_string {string : String} : ¬StandsFor text (.string string) :=
  nofun

/-! ## Words -/

theorem standsFor_of_constant? (found : constant? text = some node) : StandsFor text node := by
  unfold constant? at found
  dsimp only at found
  split at found
  · next names =>
    cases found
    rcases names with names | names
    · exact .null (Or.inl rfl) ((map_toLower_eq_iff rfl).1 names)
    · exact .null (Or.inr rfl) ((map_toLower_eq_iff rfl).1 names)
  · split at found
    · next names =>
      cases found
      exact .bool ((map_toLower_eq_iff rfl).1 names)
    · split at found
      · next names =>
        cases found
        exact .bool ((map_toLower_eq_iff rfl).1 names)
      · cases found

theorem constant?_null (names : word = "null".toList ∨ word = "~".toList) (variant : IsVariant word text) :
    constant? text = some .null := by
  unfold constant?
  rcases names with rfl | rfl
  · rw [(map_toLower_eq_iff rfl).2 variant]
    rfl
  · rw [(map_toLower_eq_iff rfl).2 variant]
    rfl

theorem constant?_bool {value : Bool} (variant : IsVariant (if value then "true".toList else "false".toList) text) :
    constant? text = some (.bool value) := by
  unfold constant?
  cases value
  · rw [(map_toLower_eq_iff rfl).2 variant]
    rfl
  · rw [(map_toLower_eq_iff rfl).2 variant]
    rfl

/-! ## Numbers -/

theorem standsFor_of_int? (found : int? text = .ok (some value)) : StandsFor text (.int value) := by
  unfold int? at found
  split at found
  · cases found
  · next numeral parsed =>
    split at found
    · cases found
    · exact .int (IntegerNumeral.parse?_eq_some_iff.1 parsed) (int64?_eq_some_iff.1 (Except.ok.inj found))

theorem read_of_integer {numeral : IntegerNumeral} (short : ¬IsOverlong text) (spells : numeral.Spells text)
    (fits : value.toInt = numeral.value) : read text = .ok (.int value) := by
  have parsed := IntegerNumeral.parse?_eq_some_iff.2 spells
  have few : ¬digitLimit < numeral.digits.length := fun many => short ⟨numeral, parsed, many⟩
  unfold read int?
  rw [constant?_of_beginsNumber (beginsNumber_of_parse? parsed), parsed]
  simp only [few, if_false, int64?_eq_some_iff.2 fits]

theorem read_of_readsBack (back : ReadsBack ⟨text, false⟩ node) : read text = .ok node :=
  back.read

theorem standsFor_of_double? (found : double? text = some x) : StandsFor text (.double x) := by
  obtain ⟨numeral, parsed, found⟩ := Option.bind_eq_some_iff.1 found
  dsimp only at found
  rw [Option.ite_none_right_eq_some] at found
  obtain ⟨accepted, same⟩ := found
  cases same
  simp only [Bool.and_eq_true, Bool.not_eq_true', Bool.and_eq_false_iff, bne_eq_false_iff_eq] at accepted
  obtain ⟨⟨fractional, finite⟩, kept⟩ := accepted
  refine .double (DecimalNumeral.parse?_eq_some_iff.1 parsed) fractional numeral.rounds_ofNumeral finite fun zero => ?_
  rw [zero] at kept
  exact DecimalNumeral.exactValue_eq_zero_iff.2 (kept.resolve_left Bool.true_eq_false.mp)

theorem read_of_decimal {numeral : DecimalNumeral} (spells : numeral.Spells text)
    (fractional : numeral.isFractional = true) (rounds : Binary64.Rounds numeral.negative numeral.exactValue x)
    (finite : x.isFinite = true) (kept : x.isZero = true → numeral.exactValue = 0) : read text = .ok (.double x) := by
  have value : Binary64.ofNumeral numeral = x := numeral.rounds_ofNumeral.unique rounds
  have keeps : (x.isZero && numeral.coefficient != 0) = false := by
    cases zero : x.isZero with
    | false => rfl
    | true => rw [DecimalNumeral.exactValue_eq_zero_iff.1 (kept zero)]; rfl
  exact read_of_readsBack
    (readsBack_decimal (DecimalNumeral.parse?_eq_some_iff.2 spells) fractional value finite keeps)

/-! ## Reading -/

/-- What is read stands for more than a string, or is the text itself. -/
theorem standsFor_or_string (reads : read text = .ok node) :
    StandsFor text node ∨ node = .string (String.ofList text) := by
  unfold read at reads
  split at reads
  · next constant =>
    cases reads
    exact Or.inl (standsFor_of_constant? constant)
  · split at reads
    · cases reads
    · next integer =>
      cases reads
      exact Or.inl (standsFor_of_int? integer)
    · split at reads
      · next decimal =>
        cases reads
        exact Or.inl (standsFor_of_double? decimal)
      · cases reads
        exact Or.inr rfl

theorem read_of_standsFor (short : ¬IsTooLong text) (stands : StandsFor text node) : read text = .ok node := by
  cases stands with
  | null names variant => rw [read, constant?_null names variant]
  | bool variant => rw [read, constant?_bool variant]
  | int spells fits => exact read_of_integer (mt isOverlong_iff.1 short) spells fits
  | double spells fractional rounds finite kept => exact read_of_decimal spells fractional rounds finite kept

theorem not_isTooLong_of_read (reads : read text = .ok node) : ¬IsTooLong text := by
  intro long
  rw [read_of_isOverlong (isOverlong_iff.2 long)] at reads
  cases reads

theorem read_eq_ok_iff :
    read text = .ok node ↔ ¬IsTooLong text
      ∧ (StandsFor text node ∨ node = .string (String.ofList text) ∧ ∀ other, ¬StandsFor text other) := by
  constructor
  · intro reads
    have short := not_isTooLong_of_read reads
    refine ⟨short, (standsFor_or_string reads).imp_right fun same => ⟨same, fun other stands => ?_⟩⟩
    rw [read_of_standsFor short stands, same] at reads
    cases reads
    exact not_standsFor_string stands
  · rintro ⟨short, stands | ⟨rfl, none⟩⟩
    · exact read_of_standsFor short stands
    · obtain ⟨node, reads⟩ := exists_read (mt isOverlong_iff.1 short)
      rcases standsFor_or_string reads with stands | rfl
      · exact absurd stands (none node)
      · exact reads

theorem read_eq_error_iff {e : Error} : read text = .error e ↔ IsTooLong text ∧ e = .numeralTooLong := by
  by_cases long : IsTooLong text
  · rw [read_of_isOverlong (isOverlong_iff.2 long), Except.error.injEq, eq_comm, and_iff_right long]
  · obtain ⟨node, reads⟩ := exists_read (mt isOverlong_iff.1 long)
    rw [reads]
    exact ⟨nofun, fun ⟨impossible, _⟩ => absurd impossible long⟩

/-- A text is read as what it stands for, and as itself if that is nothing else; only integers with too many digits
are not read. What is written for a scalar that is no text is read as that scalar. -/
theorem read_iff_standsFor :
    (∀ text node, read text = .ok node ↔ ¬IsTooLong text
        ∧ (StandsFor text node ∨ node = .string (String.ofList text) ∧ ∀ other, ¬StandsFor text other))
      ∧ (∀ text e, read text = .error e ↔ IsTooLong text ∧ e = .numeralTooLong)
      ∧ (write .null).bind read = .ok .null
      ∧ (∀ value, (write (.bool value)).bind read = .ok (.bool value))
      ∧ (∀ value, (write (.int value)).bind read = .ok (.int value))
      ∧ ∀ negative rank,
        (write (.double (.finite negative rank))).bind read = .ok (.double (.finite negative rank)) := by
  refine ⟨fun text node => read_eq_ok_iff, fun text e => read_eq_error_iff, rfl, ?_,
    fun value => read_of_readsBack (readsBack_int value), fun negative rank => ?_⟩
  · rintro (_ | _) <;> rfl
  · rw [write, doubleText_finite, Except.bind, read_of_readsBack (readsBack_double negative rank)]

end LayeredConfig.Yaml.Scalar
