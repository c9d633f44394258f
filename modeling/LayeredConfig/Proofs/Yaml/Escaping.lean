import LayeredConfig.Proofs.Yaml.TextLines

/-!
# Escapes of the quoted form

Between the quotes each character is the character itself, a backslash with a letter, or a backslash with a letter and
digits (`escapeChar_cases`). Whatever the character, its escape leaves whoever looks for the closing quote behind its
last character, with no quote seen (`bareQuotes_escapeChar`), so the first and the last character of a quoted form are
its only quotes that no backslash escapes. `quote_exact` puts this together with what reading the form gives.
-/

namespace LayeredConfig.Yaml

/-- The positions of the double quotes that no backslash escapes, where a backslash escapes the character behind it. -/
def bareQuotes (position : Nat) : List Char → List Nat
  | [] => []
  | '\\' :: _ :: rest => bareQuotes (position + 2) rest
  | '"' :: rest => position :: bareQuotes (position + 1) rest
  | _ :: rest => bareQuotes (position + 1) rest

variable {c : Char} {chars text rest : List Char}

theorem bareQuotes_cons (position : Nat) (backslash : c ≠ '\\') (mark : c ≠ '"') (rest : List Char) :
    bareQuotes position (c :: rest) = bareQuotes (position + 1) rest := by
  rw [bareQuotes]
  · exact fun _ _ same => absurd same backslash
  · exact mark

theorem bareQuotes_append (plain : ∀ c ∈ chars, c ≠ '\\' ∧ c ≠ '"') (position : Nat) (rest : List Char) :
    bareQuotes position (chars ++ rest) = bareQuotes (position + chars.length) rest := by
  induction chars generalizing position with
  | nil => rfl
  | cons c chars ih =>
    obtain ⟨⟨backslash, mark⟩, plain⟩ := List.forall_mem_cons.1 plain
    rw [List.cons_append, bareQuotes_cons position backslash mark, ih plain, List.length_cons, Nat.add_right_comm,
      Nat.add_assoc]

theorem ne_of_isHexDigit (digit : Text.isHexDigit c = true) : c ≠ '\\' ∧ c ≠ '"' := by
  constructor
  · rintro rfl
    cases digit
  · rintro rfl
    cases digit

/-- The escape of a character is passed without a quote, and what is behind it is not taken for a part of it. -/
theorem bareQuotes_escapeChar (position : Nat) (c : Char) (rest : List Char) :
    bareQuotes position (escapeChar c ++ rest) = bareQuotes (position + (escapeChar c).length) rest := by
  rcases escapeChar_cases c with ⟨itself, escape⟩ | ⟨letter, -, -, -, escape⟩ | ⟨letter, width, -, -, -, -, -, escape⟩
  · simp only [standsForItself, Bool.and_eq_true, bne_iff_ne] at itself
    rw [escape]
    exact bareQuotes_cons position itself.1.1 itself.1.2 rest
  · rw [escape]
    exact bareQuotes.eq_2 ..
  · have digits := List.all_eq_true.1 (all_isHexDigit_hexText width c.toNat)
    rw [escape, List.cons_append, List.cons_append, bareQuotes,
      bareQuotes_append fun d member => ne_of_isHexDigit (digits d member)]
    simp only [List.length_cons]
    congr 1
    omega

theorem bareQuotes_flatMap (position : Nat) (text rest : List Char) :
    bareQuotes position (text.flatMap escapeChar ++ rest)
      = bareQuotes (position + (text.flatMap escapeChar).length) rest := by
  induction text generalizing position with
  | nil => rfl
  | cons c text ih =>
    rw [List.flatMap_cons, List.append_assoc, bareQuotes_escapeChar, ih, List.length_append, Nat.add_assoc]

/-- The quotes that no backslash escapes are the first character and the last. -/
theorem bareQuotes_quote (text : List Char) : bareQuotes 0 (quote text) = [0, (quote text).length - 1] := by
  have first : bareQuotes 0 (quote text) = 0 :: bareQuotes 1 (text.flatMap escapeChar ++ ['"']) := rfl
  have last (position : Nat) : bareQuotes position ['"'] = [position] := rfl
  rw [first, bareQuotes_flatMap, last]
  simp [quote, Nat.add_comm]

theorem all_isPrintable_quote_eq (text : List Char) : (quote text).all isPrintable = text.all isReadable := by
  rw [Bool.eq_iff_iff]
  refine ⟨fun printable => List.all_eq_true.2 fun c member => ?_, all_isPrintable_quote⟩
  rw [← Bool.not_eq_false]
  intro unreadable
  have inside := List.all_eq_true.1 printable c (mem_quote_of_unreadable unreadable member)
  exact absurd (unreadable.symm.trans (isReadable_of_isPrintable inside)) Bool.false_ne_true

/-- The quoted form of any text lies on one line, and its only quotes that are not escaped are the first and the last
character. Wherever it stands and whatever follows it, it is read as the text and up to its last character. All of its
characters may stand in a YAML text unless the text holds one of the two that YAML refuses. -/
theorem quote_exact (text : List Char) :
    (∀ c ∈ quote text, isBreak c = false ∧ Text.isLineBoundary c = false)
      ∧ bareQuotes 0 (quote text) = [0, (quote text).length - 1]
      ∧ (∀ (rest : List Char) (index line column : Nat),
        FlowScalar.scan true ⟨quote text ++ rest, index, line, column⟩
          = .ok (text, ⟨rest, index + (quote text).length, line, column + (quote text).length⟩))
      ∧ (quote text).all isPrintable = text.all isReadable := by
  have quoted : (Written.mk text true).IsSound := Or.inl rfl
  have steady := List.all_eq_true.1 (Written.all_isSteady quoted)
  refine ⟨fun c member => ⟨isBreak_of_isSteady (steady c member), unbroken_quote text c member⟩, bareQuotes_quote text,
    fun rest index line column => ?_, all_isPrintable_quote_eq text⟩
  exact FlowScalar.scan_quote rfl

/-- An astral character and a control, with quotes and backslashes, and a digit behind the escape by a number. -/
example : quote "\\\"\u0001F😀 ".toList = "\"\\\\\\\"\\x01F😀 \"".toList := by decide

end LayeredConfig.Yaml
