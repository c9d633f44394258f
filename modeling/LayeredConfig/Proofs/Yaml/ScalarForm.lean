import LayeredConfig.Proofs.Number.Digits
import LayeredConfig.Proofs.Number.ReadBack
import LayeredConfig.Proofs.Yaml.Rows
import LayeredConfig.Yaml.Document
import LayeredConfig.Yaml.Token.Stream

/-!
# Reading a scalar back

The written form of every scalar is cut as one token and typed as the scalar that it was: `Scalar.readsBack_written`
for values and `Scalar.readsBack_writtenKey` for keys. A text stands without quotes only when it is read as a string
and holds nothing that means something to YAML; a number begins as no constant does, an integer has no mark of a
fraction and a double has one.
-/

namespace LayeredConfig.Yaml

namespace Scalar

/-- Whether a text is an integer numeral with more digits than are read. -/
def IsOverlong (text : List Char) : Prop :=
  ∃ numeral, IntegerNumeral.parse? text = some numeral ∧ digitLimit < numeral.digits.length

/-- A text that can be written and read as a string. -/
structure IsWritableText (text : List Char) : Prop where
  readable : text.all isReadable = true
  notOverlong : ¬IsOverlong text

/-- A written scalar that is cut as one token, and the node that this token is read as. -/
structure ReadsBack (written : Written) (node : Tree) : Prop where
  sound : written.IsSound
  read : Walk.scalarNode {} written.text written.style = .ok node
  printable : written.chars.all isPrintable = true

/-! ## Texts -/

theorem exists_read {text : List Char} (short : ¬IsOverlong text) : ∃ node, read text = .ok node := by
  have int : ∃ value, int? text = .ok value := by
    unfold int?
    cases parsed : IntegerNumeral.parse? text with
    | none => exact ⟨_, rfl⟩
    | some numeral =>
      have few : ¬digitLimit < numeral.digits.length := fun long => short ⟨numeral, parsed, long⟩
      simp only [few, if_false]
      exact ⟨_, rfl⟩
  obtain ⟨value, int⟩ := int
  unfold read
  cases constant? text with
  | some node => exact ⟨node, rfl⟩
  | none =>
    rw [int]
    cases value with
    | some value => exact ⟨_, rfl⟩
    | none => cases double? text <;> exact ⟨_, rfl⟩

theorem kind_of_constant? {text : List Char} {node : Tree} (h : constant? text = some node) :
    node.kind ≠ .string := by
  unfold constant? at h
  dsimp only at h
  repeat' split at h
  all_goals first | (cases h; done) | (cases Option.some.inj h; decide)

/-- A text that is read as a string is read as itself. -/
theorem read_eq_of_kind {text : List Char} {node : Tree} (h : read text = .ok node)
    (kind : node.kind = .string) : node = .string (String.ofList text) := by
  unfold read at h
  split at h
  · next value constant =>
    cases h
    exact absurd kind (kind_of_constant? constant)
  · split at h
    · cases h
    · cases h
      cases kind
    · split at h
      · cases h
        cases kind
      · cases h
        rfl

theorem exists_needsQuotes {text : List Char} (short : ¬IsOverlong text) (asKey : Bool) :
    ∃ quotes, needsQuotes text asKey = .ok quotes := by
  obtain ⟨node, read⟩ := exists_read short
  unfold needsQuotes
  cases text.isEmpty with
  | true => exact ⟨true, rfl⟩
  | false =>
    rw [read]
    exact ⟨_, rfl⟩

/-- What a text that stands without quotes is like. -/
structure IsBare (text : List Char) : Prop where
  nonempty : text ≠ []
  read : read text = .ok (.string (String.ofList text))
  chars : ∀ c ∈ text, isSpecial c = false ∧ needsEscape c = false
  begins : text.head? ≠ some ' '
  ends : text.getLast? ≠ some ' '
  noDashes : "---".toList.isPrefixOf text = false
  noDots : "...".toList.isPrefixOf text = false

theorem isBare_of_needsQuotes {text : List Char} {asKey : Bool}
    (h : needsQuotes text asKey = .ok false) : IsBare text := by
  unfold needsQuotes at h
  split at h
  · cases h
  · next nonempty =>
    split at h
    · cases h
    · next node found =>
      simp only [Except.ok.injEq, Bool.or_eq_false_iff, bne_eq_false_iff_eq, beq_eq_false_iff_ne,
        ne_eq] at h
      obtain ⟨⟨⟨⟨⟨⟨kind, chars⟩, begins⟩, ends⟩, noDashes⟩, noDots⟩, -⟩ := h
      refine ⟨by simpa using nonempty, ?_, ?_, begins, ends, noDashes, noDots⟩
      · rw [found, read_eq_of_kind found kind]
      · intro c member
        have plain := List.any_eq_false.1 chars c member
        simpa using plain

theorem isPlain_of_isBare {text : List Char} (bare : IsBare text) : IsPlain text := by
  refine ⟨fun c member => ?_, bare.nonempty, bare.begins, bare.ends⟩
  obtain ⟨special, escape⟩ := bare.chars c member
  have colon : c ≠ ':' := by
    intro same
    subst same
    exact absurd special (by decide)
  have hash : c ≠ '#' := by
    intro same
    subst same
    exact absurd special (by decide)
  have steady := isSteady_of_needsEscape escape
  by_cases space : c = ' '
  · simp [isPlainChar, space, isSteady_space]
  · have solid := isBlankOrEnd_of_needsEscape escape space
    simp [isPlainChar, colon, hash, steady, solid]

theorem beginsPlain_of_isBare {text : List Char} (bare : IsBare text) : beginsPlain text = true := by
  cases text with
  | nil => exact absurd rfl bare.nonempty
  | cons c rest =>
    have special := (bare.chars c (by simp)).1
    have dash : c ≠ '-' := by
      intro same
      subst same
      exact absurd special (by decide)
    have noIndicator : isIndicatorChar c = false := by
      simp [isSpecial] at special
      simp [isIndicatorChar, special]
    have noDashes := bare.noDashes
    have noDots := bare.noDots
    simp only [beginsPlain, noIndicator, noDashes, noDots, bne_iff_ne.2 dash, Bool.not_false,
      Bool.true_or, Bool.and_self]

end Scalar

/-- A text as it is written: in quotes where it has to be. -/
def Written.ofText (text : List Char) (asKey : Bool) : Written :=
  ⟨text, (Scalar.needsQuotes text asKey).toOption.getD true⟩

namespace Scalar

theorem stringText_of_isWritableText {text : List Char} (writable : IsWritableText text) (asKey : Bool) :
    stringText text asKey = .ok (Written.ofText text asKey).chars := by
  obtain ⟨quotes, found⟩ := exists_needsQuotes writable.notOverlong asKey
  unfold stringText Written.ofText
  rw [found]
  cases quotes <;> rfl

theorem readsBack_ofText {text : List Char} (writable : IsWritableText text) (asKey : Bool) :
    ReadsBack (Written.ofText text asKey) (.string (String.ofList text)) := by
  obtain ⟨quotes, found⟩ := exists_needsQuotes writable.notOverlong asKey
  unfold Written.ofText
  rw [found]
  cases quotes with
  | true => exact ⟨Or.inl rfl, rfl, all_isPrintable_quote writable.readable⟩
  | false =>
    have bare := isBare_of_needsQuotes found
    refine ⟨Or.inr ⟨isPlain_of_isBare bare, beginsPlain_of_isBare bare⟩, bare.read, ?_⟩
    refine List.all_eq_true.2 fun c member => ?_
    have readable := List.all_eq_true.1 writable.readable c member
    exact isPrintable_of_needsEscape (bare.chars c member).2 readable

/-! ## Numbers -/

/-- A text that begins as a number does: with a digit, or with a point before one, behind a sign or none. -/
def BeginsNumber (text : List Char) : Prop :=
  ∃ c rest, (splitSign text).2 = c :: rest ∧
    (c.isDigit = true ∨ c = '.' ∧ ∃ d more, rest = d :: more ∧ d.isDigit = true)

theorem isPlainChar_of_isNumeralChar {c : Char} (h : isNumeralChar c = true) :
    isPlainChar c = true := by
  simp only [isNumeralChar, Bool.or_eq_true, beq_iff_eq] at h
  rcases h with ((((digit | rfl) | rfl) | rfl) | rfl) | rfl
  · obtain ⟨low, high⟩ := Char.isDigit_iff_toNat.1 digit
    have digits : ∀ n < 58, 48 ≤ n → isPlainChar (Char.ofNat n) = true := by decide
    rw [← Char.ofNat_toNat c]
    exact digits c.toNat (Nat.lt_succ_of_le high) low
  all_goals decide

theorem isPlain_of_number {text : List Char} (chars : text.all isNumeralChar = true)
    (nonempty : text ≠ []) : IsPlain text := by
  rw [List.all_eq_true] at chars
  refine ⟨fun c member => isPlainChar_of_isNumeralChar (chars c member), nonempty, ?_, ?_⟩
  · intro space
    have member := List.mem_of_head? space
    exact absurd (chars ' ' member) (by decide)
  · intro space
    have member := List.mem_of_getLast? space
    exact absurd (chars ' ' member) (by decide)

theorem isIndicatorChar_of_isDigit {c : Char} (digit : c.isDigit = true) :
    isIndicatorChar c = false ∧ c ≠ '-' ∧ c ≠ '.' ∧ c ≠ '+' := by
  refine ⟨?_, ?_, ?_, ?_⟩
  · rw [← Bool.not_eq_true]
    intro indicator
    simp [isIndicatorChar] at indicator
    rcases indicator with rfl | rfl | rfl | rfl | rfl | rfl | rfl | rfl | rfl | rfl | rfl | rfl | rfl
      | rfl | rfl | rfl | rfl | rfl <;> exact absurd digit (by decide)
  all_goals
    intro same
    subst same
    exact absurd digit (by decide)

theorem splitSign_cases (text : List Char) :
    text = '-' :: (splitSign text).2 ∨ text = '+' :: (splitSign text).2 ∨ text = (splitSign text).2 := by
  unfold splitSign
  split
  · exact Or.inl rfl
  · exact Or.inr (Or.inl rfl)
  · exact Or.inr (Or.inr rfl)

theorem isBlankOrEnd_of_isDigit {c : Char} (digit : c.isDigit = true) : isBlankOrEnd c = false := by
  have plain := isPlainChar_of_isNumeralChar (isNumeralChar_of_isDigit digit)
  have solid : c ≠ ' ' := by
    intro same
    subst same
    exact absurd digit (by decide)
  simp only [isPlainChar, Bool.and_eq_true, Bool.or_eq_true, beq_iff_eq, solid, false_or,
    Bool.not_eq_true'] at plain
  exact plain.1.1.1

theorem beginsPlain_of_beginsNumber {text : List Char} (begins : BeginsNumber text) :
    beginsPlain text = true := by
  obtain ⟨c, rest, body, first⟩ := begins
  have solid : isBlankOrEnd c = false := by
    rcases first with digit | ⟨rfl, -⟩
    · exact isBlankOrEnd_of_isDigit digit
    · rfl
  have noDash : c ≠ '-' := by
    rcases first with digit | ⟨rfl, -⟩
    · exact (isIndicatorChar_of_isDigit digit).2.1
    · decide
  rcases splitSign_cases text with signed | signed | signed
  · rw [signed, body]
    have other : ('-' == c) = false := beq_eq_false_iff_ne.2 (Ne.symm noDash)
    simp [beginsPlain, isIndicatorChar, solid, List.isPrefixOf, other]
  · rw [signed, body]
    rfl
  · rw [signed, body]
    rcases first with digit | ⟨rfl, d, more, rfl, digit⟩
    · obtain ⟨noIndicator, -, noDot, -⟩ := isIndicatorChar_of_isDigit digit
      have dash : ('-' == c) = false := beq_eq_false_iff_ne.2 (Ne.symm noDash)
      have dot : ('.' == c) = false := beq_eq_false_iff_ne.2 (Ne.symm noDot)
      simp [beginsPlain, noIndicator, noDash, List.isPrefixOf, dash, dot]
    · have dot : ('.' == d) = false :=
        beq_eq_false_iff_ne.2 (Ne.symm (isIndicatorChar_of_isDigit digit).2.2.1)
      simp [beginsPlain, isIndicatorChar, List.isPrefixOf, dot]

/-- No constant begins as a number does. -/
theorem constant?_of_beginsNumber {text : List Char} (begins : BeginsNumber text) :
    constant? text = none := by
  obtain ⟨c, rest, body, first⟩ := begins
  have numeric : ∃ d more, text = d :: more ∧ (d.isDigit = true ∨ d = '-' ∨ d = '+' ∨ d = '.') := by
    rcases splitSign_cases text with signed | signed | signed
    · exact ⟨'-', _, signed, Or.inr (Or.inl rfl)⟩
    · exact ⟨'+', _, signed, Or.inr (Or.inr (Or.inl rfl))⟩
    · refine ⟨c, rest, signed.trans body, ?_⟩
      rcases first with digit | ⟨rfl, -⟩
      · exact Or.inl digit
      · exact Or.inr (Or.inr (Or.inr rfl))
  obtain ⟨d, more, rfl, kind⟩ := numeric
  have letters : d.toLower ≠ 'n' ∧ d.toLower ≠ '~' ∧ d.toLower ≠ 't' ∧ d.toLower ≠ 'f' := by
    rcases kind with digit | rfl | rfl | rfl
    · obtain ⟨low, high⟩ := Char.isDigit_iff_toNat.1 digit
      have digits : ∀ n < 58, 48 ≤ n → (Char.ofNat n).toLower ≠ 'n' ∧ (Char.ofNat n).toLower ≠ '~'
          ∧ (Char.ofNat n).toLower ≠ 't' ∧ (Char.ofNat n).toLower ≠ 'f' := by decide
      rw [← Char.ofNat_toNat d]
      exact digits d.toNat (Nat.lt_succ_of_le high) low
    all_goals decide
  unfold constant?
  simp [letters]

theorem isPrintable_of_isNumeralChar {c : Char} (h : isNumeralChar c = true) :
    isPrintable c = true := by
  simp only [isNumeralChar, Bool.or_eq_true, beq_iff_eq] at h
  rcases h with ((((digit | rfl) | rfl) | rfl) | rfl) | rfl
  · obtain ⟨low, high⟩ := Char.isDigit_iff_toNat.1 digit
    have digits : ∀ n < 58, 48 ≤ n → isPrintable (Char.ofNat n) = true := by decide
    rw [← Char.ofNat_toNat c]
    exact digits c.toNat (Nat.lt_succ_of_le high) low
  all_goals decide

/-- The text of a number is cut as one token. -/
theorem isSound_number {text : List Char} (chars : text.all isNumeralChar = true) (begins : BeginsNumber text) :
    Written.IsSound ⟨text, false⟩ := by
  have nonempty : text ≠ [] := by
    intro same
    subst same
    obtain ⟨c, rest, body, -⟩ := begins
    cases body
  exact Or.inr ⟨isPlain_of_number chars nonempty, beginsPlain_of_beginsNumber begins⟩

theorem printable_number {text : List Char} (chars : text.all isNumeralChar = true) :
    text.all isPrintable = true :=
  List.all_eq_true.2 fun c member => isPrintable_of_isNumeralChar (List.all_eq_true.1 chars c member)

theorem readsBack_number {text : List Char} {node : Tree} (chars : text.all isNumeralChar = true)
    (begins : BeginsNumber text) (typed : read text = .ok node) : ReadsBack ⟨text, false⟩ node :=
  ⟨isSound_number chars begins, typed, printable_number chars⟩

theorem readsBack_int (value : Int64) : ReadsBack ⟨integerText value.toInt, false⟩ (.int value) := by
  have body := splitSign_integerText value.toInt
  have chars : (integerText value.toInt).all isNumeralChar = true := by
    apply all_isNumeralChar_of_splitSign
    rw [body]
    exact List.all_eq_true.2 fun c member =>
      isNumeralChar_of_isDigit (isDigit_of_mem_decimalDigits member)
  have begins : BeginsNumber (integerText value.toInt) := by
    unfold BeginsNumber
    rw [body]
    cases digits : decimalDigits value.toInt.natAbs with
    | nil => exact absurd digits (decimalDigits_ne_nil _)
    | cons d rest =>
      exact ⟨d, rest, rfl, Or.inl (isDigit_of_mem_decimalDigits (n := value.toInt.natAbs) (by
        rw [digits]
        exact List.mem_cons_self))⟩
  have fits : int64? value.toInt = some value := int64?_eq_some_iff.2 rfl
  have few := Nat.not_lt.2 (length_decimalDigits_int64 value)
  have int : int? (integerText value.toInt) = .ok (some value) := by
    unfold int?
    rw [IntegerNumeral.parse?_integerText]
    simp only [few, if_false, IntegerNumeral.value_integerText, fits]
  refine readsBack_number chars begins ?_
  unfold read
  rw [constant?_of_beginsNumber begins, int]

/-- No integer numeral is a decimal numeral with a point or an exponent. -/
theorem parse?_eq_none_of_isFractional {text : List Char} {numeral : DecimalNumeral}
    (read : DecimalNumeral.parse? text = some numeral) (fractional : numeral.isFractional = true) :
    IntegerNumeral.parse? text = none := by
  cases parsed : IntegerNumeral.parse? text with
  | none => rfl
  | some integer =>
    have digits := IntegerNumeral.isDigit_of_parse? parsed
    have nonempty : (splitSign text).2 ≠ [] := by
      intro empty
      unfold IntegerNumeral.parse? at parsed
      simp [empty] at parsed
    have signed : splitSign text = ((splitSign text).1, (splitSign text).2 ++ []) := by
      rw [List.append_nil]
    have again := DecimalNumeral.parse?_of_digits signed nonempty digits rfl (by decide) rfl
    rw [read] at again
    cases Option.some.inj again
    cases fractional

/-- The text of a decimal numeral is read as the number it spells, unless rounding took that to zero. -/
theorem readsBack_decimal {text : List Char} {numeral : DecimalNumeral} {x : Binary64}
    (parsed : DecimalNumeral.parse? text = some numeral) (fractional : numeral.isFractional = true)
    (value : Binary64.ofNumeral numeral = x) (finite : x.isFinite = true)
    (kept : (x.isZero && numeral.coefficient != 0) = false) : ReadsBack ⟨text, false⟩ (.double x) := by
  obtain ⟨exponent, spelling⟩ := DecimalNumeral.exists_spelling parsed
  have begins : BeginsNumber text := spelling.begins
  have int : int? text = .ok none := by
    unfold int?
    rw [parse?_eq_none_of_isFractional parsed fractional]
  have double : double? text = some x := by
    unfold double?
    rw [parsed, Option.bind_some]
    simp only [value, fractional, finite, kept, Bool.not_false, Bool.and_self, if_true]
  refine readsBack_number spelling.all_isNumeralChar begins ?_
  unfold read
  rw [constant?_of_beginsNumber begins, int, double]

theorem readsBack_double (negative : Bool) (rank : Fin Binary64.rankCount) :
    ReadsBack ⟨Binary64.finiteText negative rank, false⟩ (.double (.finite negative rank)) := by
  obtain ⟨numeral, parsed, value, fractional⟩ := Binary64.exists_numeral_finiteText negative rank
  refine readsBack_decimal parsed fractional value rfl ?_
  rw [Bool.and_eq_false_iff]
  by_cases zero : rank = ⟨0, Binary64.rankCount_pos⟩
  · subst zero
    right
    rw [Binary64.coefficient_of_zero parsed]
    rfl
  · left
    have other : rank.val ≠ 0 := fun same => zero (Fin.ext same)
    unfold Binary64.isZero
    rw [beq_eq_false_iff_ne]
    exact other

theorem doubleText_finite (negative : Bool) (rank : Fin Binary64.rankCount) :
    doubleText (.finite negative rank) = Binary64.finiteText negative rank := by
  rw [doubleText, Binary64.text]
  · intro payload same
    cases same
  · intro negative' same
    cases same

theorem readsBack_finite {value : Binary64} (finite : value.isFinite = true) :
    ReadsBack ⟨doubleText value, false⟩ (.double value) := by
  cases value with
  | finite negative rank =>
    rw [doubleText_finite]
    exact readsBack_double negative rank
  | infinity negative => cases finite
  | nan payload => cases finite

/-! ## Values and keys -/

instance (text : List Char) : Decidable (IsOverlong text) :=
  match parsed : IntegerNumeral.parse? text with
  | none => isFalse fun ⟨_, same, _⟩ => by rw [parsed] at same; cases same
  | some numeral => decidable_of_iff (digitLimit < numeral.digits.length)
      ⟨fun long => ⟨numeral, parsed, long⟩, fun ⟨_, same, long⟩ =>
        Option.some.inj (parsed.symm.trans same) ▸ long⟩

instance (text : List Char) : Decidable (IsWritableText text) :=
  decidable_of_iff (text.all isReadable = true ∧ ¬IsOverlong text)
    ⟨fun ⟨readable, notOverlong⟩ => ⟨readable, notOverlong⟩,
      fun ⟨readable, notOverlong⟩ => ⟨readable, notOverlong⟩⟩

/-- A scalar that can be written and read back; a container is none. -/
def IsWritable : Tree → Prop
  | .null | .bool _ | .int _ => True
  | .double value => value.isFinite = true
  | .string text => IsWritableText text.toList
  | .sequence _ | .mapping _ => False

end Scalar

/-- A scalar as it is written. -/
def Written.ofScalar : Tree → Written
  | .string text => .ofText text.toList false
  | node => ⟨(Scalar.write node).toOption.getD [], false⟩

namespace Scalar

theorem write_of_isWritable {node : Tree} (writable : IsWritable node) :
    write node = .ok (Written.ofScalar node).chars := by
  cases node with
  | null => rfl
  | bool value => rfl
  | int value => rfl
  | double value => rfl
  | string text => exact stringText_of_isWritableText writable false
  | sequence items => exact writable.elim
  | mapping entries => exact writable.elim

/-- A word without spaces that stands for a constant is cut as one token. -/
theorem readsBack_word {text : List Char} {node : Tree}
    (chars : text.all (fun c => isPlainChar c && c != ' ' && isPrintable c) = true)
    (begins : beginsPlain text = true) (typed : read text = .ok node) : ReadsBack ⟨text, false⟩ node := by
  have each : ∀ c ∈ text, (isPlainChar c = true ∧ c ≠ ' ') ∧ isPrintable c = true := by
    intro c member
    have found := List.all_eq_true.1 chars c member
    simpa only [Bool.and_eq_true, bne_iff_ne] using found
  have nonempty : text ≠ [] := by
    intro same
    subst same
    cases begins
  have plain : IsPlain text := by
    refine ⟨fun c member => (each c member).1.1, nonempty, ?_, ?_⟩
    · exact fun space => (each ' ' (List.mem_of_head? space)).1.2 rfl
    · exact fun space => (each ' ' (List.mem_of_getLast? space)).1.2 rfl
  exact ⟨Or.inr ⟨plain, begins⟩, typed, List.all_eq_true.2 fun c member => (each c member).2⟩

/-- Every scalar is read back from its written form. -/
theorem readsBack_ofScalar {node : Tree} (writable : IsWritable node) :
    ReadsBack (Written.ofScalar node) node := by
  cases node with
  | null => exact readsBack_word rfl rfl rfl
  | bool value => cases value <;> exact readsBack_word rfl rfl rfl
  | int value => exact readsBack_int value
  | double value => exact readsBack_finite writable
  | string text =>
    have back := readsBack_ofText writable false
    rw [String.ofList_toList] at back
    exact back
  | sequence items => exact writable.elim
  | mapping entries => exact writable.elim

end Scalar

end LayeredConfig.Yaml
