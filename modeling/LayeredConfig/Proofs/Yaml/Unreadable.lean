import LayeredConfig.Proofs.Yaml.Excess
import LayeredConfig.Proofs.Yaml.QuotedForm

/-!
# Characters that cannot be written

Two noncharacters and the surrogates are refused wherever a text holds them as they are, and no escape is written for
them. An escape by number can name them all the same (`NamesUnreadable`), and nothing else brings them into a scalar: a
word that is read from a text is `Legible`.
-/

namespace LayeredConfig.Yaml

variable {text word : List Char} {c : Cursor}

/-- The numbers that an escape may name and whose characters cannot be written so that they are read again: those of
surrogates, and two noncharacters. -/
def IsUnreadableCode (code : Nat) : Prop :=
  FlowScalar.isSurrogate code = true ∨ code = 0xFFFE ∨ code = 0xFFFF

/-- Somewhere in the text stands an escape by number that names such a character. -/
def NamesUnreadable (text : List Char) : Prop :=
  ∃ letter digits, '\\' :: letter :: digits <:+: text ∧ FlowScalar.escapeWidth? letter = some digits.length
    ∧ digits.all Text.isHexDigit = true ∧ IsUnreadableCode (Text.hexValue digits)

/-- A code point that is no surrogate is the code of its character. -/
theorem toNat_ofNat {code : Nat} (inRange : code ≤ 0x10FFFF) (noSurrogate : ¬FlowScalar.isSurrogate code = true) :
    (Char.ofNat code).toNat = code := by
  have valid : code.isValidChar := by
    simp only [FlowScalar.isSurrogate, Bool.and_eq_true, decide_eq_true_eq] at noSurrogate
    unfold Nat.isValidChar
    omega
  rw [Char.ofNat, dif_pos valid]
  rfl

theorem isReadable_eq_false_iff {ch : Char} : isReadable ch = false ↔ ch.toNat = 0xFFFE ∨ ch.toNat = 0xFFFF := by
  rw [isReadable, Bool.and_eq_false_iff, bne_eq_false_iff_eq, bne_eq_false_iff_eq, ← Char.toNat_inj, ← Char.toNat_inj]
  exact Iff.rfl

/-- A code point is read as a character that can be written, unless it is unreadable. -/
theorem isReadable_of_ofCodePoint {code : Nat} {ch : Char} (reads : FlowScalar.ofCodePoint code = .ok ch) :
    isReadable ch = false ↔ IsUnreadableCode code := by
  unfold FlowScalar.ofCodePoint at reads
  split at reads
  · cases reads
  · split at reads
    · cases reads
    · next inRange =>
      split at reads
      · next surrogate =>
        cases reads
        exact iff_of_true rfl (.inl surrogate)
      · next noSurrogate =>
        cases reads
        rw [isReadable_eq_false_iff, toNat_ofNat (Nat.not_lt.1 inRange) noSurrogate]
        exact ⟨.inr, fun unreadable => unreadable.resolve_left noSurrogate⟩

/-- An unreadable character is named as well as others. -/
theorem exists_ofCodePoint {code : Nat} (unreadable : IsUnreadableCode code) :
    ∃ ch, FlowScalar.ofCodePoint code = .ok ch := by
  have inRange : code ≤ 0xFFFF := by
    rcases unreadable with surrogate | rfl | rfl
    · simp only [FlowScalar.isSurrogate, Bool.and_eq_true, decide_eq_true_eq] at surrogate
      omega
    · decide
    · decide
  unfold FlowScalar.ofCodePoint
  rw [if_neg (by omega), if_neg (by omega)]
  split
  · exact ⟨_, rfl⟩
  · exact ⟨_, rfl⟩

/-! ## Words that come from a text -/

/-- Every character of the word stands in the text or can be written, unless the text names one that cannot. -/
def Legible (text word : List Char) : Prop :=
  ∀ ch ∈ word, ch ∈ text ∨ isReadable ch = true ∨ NamesUnreadable text

namespace Legible

theorem nil : Legible text [] :=
  List.forall_mem_nil _

theorem append {more : List Char} (legible : Legible text word) (legible' : Legible text more) :
    Legible text (word ++ more) :=
  List.forall_mem_append.2 ⟨legible, legible'⟩

theorem of_part (part : word <:+: text) : Legible text word :=
  fun _ member => .inl (part.mem member)

theorem of_readable (readable : ∀ ch ∈ word, isReadable ch = true) : Legible text word :=
  fun ch member => .inr (.inl (readable ch member))

/-- A word of a printable text is readable, unless the text names what is not. -/
theorem all_isReadable (legible : Legible text word) (printable : ∀ ch ∈ text, isPrintable ch = true)
    (names : ¬NamesUnreadable text) : word.all isReadable = true := by
  refine List.all_eq_true.2 fun ch member => ?_
  rcases legible ch member with stands | readable | named
  · exact isReadable_of_isPrintable (printable ch stands)
  · exact readable
  · exact absurd named names

end Legible

theorem isReadable_of_isBlankOrEnd {ch : Char} (blank : isBlankOrEnd ch = true) : isReadable ch = true := by
  rw [← Bool.not_eq_false, isReadable, Bool.and_eq_false_iff, bne_eq_false_iff_eq, bne_eq_false_iff_eq]
  rintro (rfl | rfl) <;> cases blank

/-- A line break is blank. -/
theorem isBlankOrEnd_of_mem_takeBreak {ch : Char} (member : ch ∈ c.takeBreak.1) : isBlankOrEnd ch = true := by
  unfold Cursor.takeBreak at member
  split at member
  · cases List.mem_singleton.1 member
    decide
  · split at member
    · cases List.mem_singleton.1 member
      decide
    · split at member
      · next separator =>
        cases List.mem_singleton.1 member
        rcases Bool.or_eq_true_iff.1 separator with h | h
        all_goals
          cases beq_iff_eq.1 h
          decide
      · cases member
  · cases member

theorem legible_blank (blank : ∀ ch ∈ word, isBlankOrEnd ch = true) : Legible text word :=
  .of_readable fun ch member => isReadable_of_isBlankOrEnd (blank ch member)

theorem legible_takeBreak (c : Cursor) : Legible text c.takeBreak.1 :=
  legible_blank fun _ => isBlankOrEnd_of_mem_takeBreak

/-- What stands ahead inside a text is legible, as far as it goes. -/
theorem Cursor.Inside.legible (inside : c.Inside text) (front : word <+: c.rest) : Legible text word :=
  .of_part (inside.infix_of_front front)

theorem Cursor.Inside.legible_peek (inside : c.Inside text) (solid : isBlankOrEnd c.peek = false) :
    Legible text [c.peek] := by
  refine inside.legible ?_
  unfold Cursor.peek at solid ⊢
  cases ahead : c.rest with
  | nil =>
    rw [ahead] at solid
    cases solid
  | cons ch rest => exact List.cons_prefix_cons.2 ⟨rfl, List.nil_prefix⟩

theorem isReadable_simpleEscape? {letter ch : Char} (simple : FlowScalar.simpleEscape? letter = some ch) :
    isReadable ch = true := by
  unfold FlowScalar.simpleEscape? at simple
  split at simple
  all_goals
    cases simple
    try rfl

end LayeredConfig.Yaml
