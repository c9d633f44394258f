import LayeredConfig.Proofs.Outcome
import LayeredConfig.Proofs.Yaml.Cursor
import LayeredConfig.Text.Hex
import LayeredConfig.Yaml.Token
import LayeredConfig.Number.Numeral

/-!
# What is too large to be read

Two things in a text make reading fail in a way that is no refusal of the text as YAML: more digits in a row than an
integer may have, and an escape by number beyond the last code point. `Exceeds` says of such an error where in the text
its cause stands, and `Explains` of any error of reading that it is a refusal or has such a cause.
-/

namespace LayeredConfig.Yaml

variable {text : List Char}

/-- Somewhere in the text stand more decimal digits in a row than an integer may have. -/
def HasLongDigits (text : List Char) : Prop :=
  ∃ digits, digits <:+: text ∧ digits.all Char.isDigit ∧ digitLimit < digits.length

/-- Somewhere in the text stands an escape by eight digits whose number is of this kind. -/
def HasEscape (kind : Nat → Prop) (text : List Char) : Prop :=
  ∃ digits, '\\' :: 'U' :: digits <:+: text ∧ digits.length = 8 ∧ digits.all Text.isHexDigit ∧
    kind (Text.hexValue digits)

/-- What the text holds if reading it ends in an error that is no refusal. -/
def Exceeds (text : List Char) : Error → Prop
  | .numeralTooLong => HasLongDigits text
  | .codePointTooLarge => HasEscape (fun code => 0x10FFFF < code ∧ code ≤ 0x7FFFFFFF) text
  | .codePointBeyondWord => HasEscape (0x7FFFFFFF < ·) text
  | _ => False

/-- What exceeds the reader is no configuration error. -/
theorem isConfiguration_of_exceeds {error : Error} (exceeds : Exceeds text error) :
    error.category.isConfiguration = false := by
  cases error with
  | numeralTooLong | codePointTooLarge | codePointBeyondWord => rfl
  | _ => cases exceeds

/-- An error is a refusal of the text, or the text holds what exceeds the reader. -/
def Explains (text : List Char) (error : Error) : Prop :=
  error.category = .parse ∨ Exceeds text error

/-- The same of a fault, in a text of any name. -/
def Fault.ExplainedBy (text : List Char) (fault : Fault) : Prop :=
  ∀ source, Explains text (fault.toError source)

theorem Fault.malformed_explainedBy : Fault.malformed.ExplainedBy text :=
  fun _ => .inl rfl

theorem Fault.numeralTooLong_explainedBy (holds : HasLongDigits text) : Fault.numeralTooLong.ExplainedBy text :=
  fun _ => .inr holds

/-! ## Parts of a text -/

section

variable {word before value : List Char} {c : Char} {error : Error}

/-- A word stands behind characters that it does not begin with. -/
theorem infix_of_infix_append (part : c :: word <:+: before ++ value) (other : c ∉ before) :
    c :: word <:+: value := by
  induction before with
  | nil => exact part
  | cons b before ih =>
    rw [List.mem_cons, not_or] at other
    rcases List.infix_cons_iff.1 part with front | part
    · exact absurd (List.cons_prefix_cons.1 front).1 other.1
    · exact ih part other.2

/-- A word stands before a character that is not in it. -/
theorem infix_of_infix_concat (part : word <:+: value ++ [c]) (other : c ∉ word) : word <:+: value := by
  rcases List.infix_concat_iff.1 part with back | part
  · rcases List.suffix_concat_iff.1 back with rfl | ⟨front, rfl, -⟩
    · exact List.nil_infix
    · exact absurd (List.mem_append_right front (List.mem_singleton_self c)) other
  · exact part

theorem Exceeds.mono (exceeds : Exceeds value error) (part : value <:+: text) : Exceeds text error := by
  cases error with
  | numeralTooLong | codePointTooLarge | codePointBeyondWord =>
    obtain ⟨digits, found, rest⟩ := exceeds
    exact ⟨digits, found.trans part, rest⟩
  | _ => cases exceeds

end

/-! ## Places inside a text -/

namespace Cursor

/-- A cursor with the text ahead comes here as it moves on. -/
def Inside (text : List Char) (c : Cursor) : Prop :=
  ∃ origin : Cursor, origin.rest = text ∧ ∃ n, c = origin.skip n

namespace Inside

variable {c : Cursor}

theorem here (c : Cursor) : c.Inside c.rest :=
  ⟨c, rfl, 0, rfl⟩

theorem start (text : List Char) : (Cursor.start text).Inside text :=
  here (Cursor.start text)

theorem next (inside : c.Inside text) : c.next.Inside text := by
  obtain ⟨origin, same, n, rfl⟩ := inside
  exact ⟨origin, same, n + 1, origin.next_skip n⟩

/-- What stands ahead is the rest of the text. -/
theorem suffix (inside : c.Inside text) : c.rest <:+ text := by
  obtain ⟨origin, rfl, n, rfl⟩ := inside
  rw [rest_skip]
  exact List.drop_suffix n origin.rest

theorem skip (inside : c.Inside text) (n : Nat) : (c.skip n).Inside text := by
  induction n generalizing c with
  | zero => exact inside
  | succ n ih => exact ih inside.next

theorem takeWhile (inside : c.Inside text) (p : Char → Bool) : (c.takeWhile p).2.Inside text :=
  inside.skip _

theorem dropWhile (inside : c.Inside text) (p : Char → Bool) : (c.dropWhile p).Inside text :=
  inside.takeWhile p

theorem takeBreak (inside : c.Inside text) : c.takeBreak.2.Inside text := by
  unfold Cursor.takeBreak
  split
  · exact inside.skip 2
  · repeat' split
    · exact inside.next
    · exact inside.next
    · exact inside
  · exact inside

theorem skipComment (inside : c.Inside text) : c.skipComment.Inside text := by
  unfold Cursor.skipComment
  dsimp only
  split
  · exact (inside.dropWhile _).dropWhile _
  · exact inside.dropWhile _

/-- What begins ahead is part of the text. -/
theorem infix_of_front (inside : c.Inside text) {word : List Char} (front : word <+: c.rest) : word <:+: text :=
  front.isInfix.trans inside.suffix.isInfix

end Inside

end Cursor

end LayeredConfig.Yaml
