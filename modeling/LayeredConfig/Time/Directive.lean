import LayeredConfig.Number.Numeral
import LayeredConfig.Text.Case

/-!
# Directives

A directive begins after a percent sign. Flags come first: `0`, `_` and `-` say how a field is filled up to its width,
of which the last counts, and `^` and `#` change its case. A width may follow, then a variant, `E` or `O`, and at last
the letter of the field. What is laid out is a `Field`.
-/

namespace LayeredConfig

/-- What a field is filled up with on its left. -/
inductive Filler where
  | zeros
  | spaces
  | nothing
  deriving DecidableEq, Repr

/-- What follows a percent sign, up to the letter of the field, which is missing at the end of a pattern. -/
structure Directive where
  filler : Option Filler
  upper : Bool
  swap : Bool
  width : Nat
  variant : Option Char
  letter : Option Char
  deriving DecidableEq, Repr

/-- What is laid out for a directive. -/
inductive Field where
  /-- A number of at least so many digits, with what usually fills it up. -/
  | number (usual : Filler) (least value : Nat)
  /-- A name, which both flags of case put into upper case. -/
  | name (text : List Char)
  /-- Text of several parts, which one flag of case puts into upper case. -/
  | phrase (text : List Char)
  /-- Text that stays in its case. -/
  | fixed (text : List Char)
  /-- An empty field, which is filled up unless the directive forbids it. -/
  | blank
  /-- No field at all, whatever its width. -/
  | absent
  deriving DecidableEq, Repr

namespace Directive

/-! ## Reading -/

/-- Whether a character is a flag. -/
def isFlag (c : Char) : Bool :=
  c == '0' || c == '_' || c == '-' || c == '^' || c == '#'

/-- What a flag fills a field up with, if it is about that. -/
def fillerOf? : Char → Option Filler
  | '0' => some .zeros
  | '_' => some .spaces
  | '-' => some .nothing
  | _ => none

/-- Whether a character is a variant. -/
def isVariant (c : Char) : Bool :=
  c == 'E' || c == 'O'

/-- The directive that begins a text, and what follows its letter. Widths of `limit` and more count as `limit`. -/
def take (limit : Nat) (text : List Char) : Directive × List Char :=
  let flags := text.takeWhile isFlag
  let afterFlags := text.dropWhile isFlag
  let widthDigits := afterFlags.takeWhile Char.isDigit
  let afterWidth := afterFlags.dropWhile Char.isDigit
  let afterVariant := if afterWidth.head?.any isVariant then afterWidth.tail else afterWidth
  (⟨(flags.filterMap fillerOf?).getLast?, flags.contains '^', flags.contains '#',
      min limit (digitsValue widthDigits), afterWidth.head?.filter isVariant, afterVariant.head?⟩,
    afterVariant.tail)

theorem length_take_le (limit : Nat) (text : List Char) : (take limit text).2.length ≤ text.length := by
  have flags := (List.dropWhile_sublist isFlag (l := text)).length_le
  have width := (List.dropWhile_sublist Char.isDigit (l := text.dropWhile isFlag)).length_le
  simp only [take, List.length_tail]
  split
  · simp only [List.length_tail]
    omega
  · omega

/-! ## Laying out -/

/-- Text filled up on the left to a width. -/
def pad (filler : Char) (width : Nat) (text : List Char) : List Char :=
  List.replicate (width - text.length) filler ++ text

/-- Text filled up to the width of a directive: with zeros where it says so, else with spaces. -/
def padText (directive : Directive) (text : List Char) : List Char :=
  pad (if directive.filler = some .zeros then '0' else ' ') directive.width text

/-- A number as a directive has it: filled up to the least number of digits or to the width, unless the directive
forbids it. -/
def padNumber (directive : Directive) (usual : Filler) (least value : Nat) : List Char :=
  let digits := decimalDigits value
  match directive.filler.getD usual with
  | .zeros => pad '0' (max least directive.width) digits
  | .spaces => pad ' ' (max least directive.width) digits
  | .nothing => pad ' ' directive.width digits

/-- Text in upper case, if a directive wants it so. -/
def inCase (upper : Bool) (text : List Char) : List Char :=
  if upper then text.map Text.upperChar else text

/-- What stands for a field of a directive. -/
def layOut (directive : Directive) : Field → List Char
  | .number usual least value => directive.padNumber usual least value
  | .name text => directive.padText (inCase (directive.upper || directive.swap) text)
  | .phrase text => directive.padText (inCase directive.upper text)
  | .fixed text => directive.padText text
  | .blank => if directive.filler = some .nothing then [] else directive.padText []
  | .absent => []

end Directive

end LayeredConfig
