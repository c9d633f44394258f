import LayeredConfig.Proofs.Yaml.PlainForm
import LayeredConfig.Proofs.Yaml.QuotedForm
import LayeredConfig.Yaml.Token

/-!
# Rows of a block text

The lines of a canonical text as data. A `Row` is an indentation, what leads it in (a dash, or a key with its
colon), and what stands in the line behind that, if anything. `rowsText` writes rows and `rowTokens` says which
tokens they are cut into, where the block collections in `indents` are open.
-/

namespace LayeredConfig.Yaml

/-- A scalar as it is written: its text, between double quotes or plain. -/
structure Written where
  text : List Char
  quoted : Bool
  deriving DecidableEq, Repr

namespace Written

/-- The characters of a written scalar. -/
def chars (written : Written) : List Char :=
  if written.quoted then quote written.text else written.text

/-- The style of a written scalar. -/
def style (written : Written) : Style :=
  if written.quoted then .doubleQuoted else .plain

/-- The token of a written scalar. -/
def token (written : Written) : Token :=
  .scalar written.text written.style

end Written

/-- The indicators that no plain scalar begins with, the dash apart. -/
def isIndicatorChar (c : Char) : Bool :=
  "?:,[]\x7b\x7d#&*!|>'\"%@\x60".toList.contains c

/-- Whether a plain scalar may begin a text: with no indicator, or with a dash before a character that is no
blank, and with no document marker. -/
def beginsPlain (text : List Char) : Bool :=
  match text with
  | [] => false
  | c :: rest =>
    !isIndicatorChar c && (c != '-' || !isBlankOrEnd (rest.headD endMark))
      && !"---".toList.isPrefixOf text && !"...".toList.isPrefixOf text

/-- A written scalar that is cut as one token: in quotes, or plain. -/
def Written.IsSound (written : Written) : Prop :=
  written.quoted = true ∨ IsPlain written.text ∧ beginsPlain written.text = true

/-- A node that stands in the line of its parent. -/
inductive Cell where
  | scalar (written : Written)
  | emptySequence
  | emptyMapping
  deriving DecidableEq, Repr

namespace Cell

/-- The characters of a cell. -/
def chars : Cell → List Char
  | .scalar written => written.chars
  | .emptySequence => "[]".toList
  | .emptyMapping => "\x7b\x7d".toList

/-- The tokens of a cell. -/
def tokens : Cell → List Token
  | .scalar written => [written.token]
  | .emptySequence => [.flowSequenceStart, .flowSequenceEnd]
  | .emptyMapping => [.flowMappingStart, .flowMappingEnd]

/-- A cell whose scalar is cut as one token. -/
def IsSound : Cell → Prop
  | .scalar written => written.IsSound
  | _ => True

end Cell

/-- What begins a row: the dash of an item, or the key of an entry. -/
inductive Lead where
  | item
  | entry (key : Written)
  deriving DecidableEq, Repr

namespace Lead

/-- The characters of a lead. -/
def chars : Lead → List Char
  | .item => ['-']
  | .entry key => key.chars ++ [':']

/-- The token that starts the collection of a lead. -/
def start : Lead → Token
  | .item => .blockSequenceStart
  | .entry _ => .blockMappingStart

/-- The tokens of a lead. -/
def tokens : Lead → List Token
  | .item => [.blockEntry]
  | .entry key => [.key, key.token, .value]

/-- The most characters of a key. -/
def keyLimit : Nat := 1024

/-- A lead whose key is cut as one token and is short enough for a key. -/
def IsSound : Lead → Prop
  | .item => True
  | .entry key => key.IsSound ∧ key.chars.length ≤ keyLimit

end Lead

/-- A line of a block text. -/
structure Row where
  indent : Nat
  lead : Lead
  cell : Option Cell
  deriving DecidableEq, Repr

namespace Row

/-- What stands behind the lead of a row. -/
def tail : Option Cell → List Char
  | none => []
  | some cell => ' ' :: cell.chars

/-- The characters of a row behind its indentation. -/
def content (row : Row) : List Char :=
  row.lead.chars ++ tail row.cell

/-- The characters of a row. -/
def line (row : Row) : List Char :=
  List.replicate row.indent ' ' ++ row.content

/-- The tokens of what stands behind the lead of a row. -/
def cellTokens (row : Row) : List Token :=
  match row.cell with
  | none => []
  | some cell => cell.tokens

end Row

/-- The text of rows, each with its end. -/
def rowsText (rows : List Row) : List Char :=
  rows.flatMap fun row => row.line ++ ['\n']

/-- The indentation of the first row. -/
def firstIndent : List Row → Nat
  | [] => 0
  | row :: _ => row.indent

/-- The text of rows without the indentation of the first. -/
def rowsBody : List Row → List Char
  | [] => []
  | row :: rows => row.content ++ '\n' :: rowsText rows

theorem rowsText_eq (rows : List Row) :
    rowsText rows = List.replicate (firstIndent rows) ' ' ++ rowsBody rows := by
  cases rows with
  | nil => rfl
  | cons row rows =>
    rw [rowsText, List.flatMap_cons]
    simp [Row.line, firstIndent, rowsBody, rowsText]

/-- Rows that are cut one by one: each is sound, and behind a cell the next row is no deeper. -/
def RowsSound : List Row → Prop
  | [] => True
  | row :: rows =>
    row.lead.IsSound ∧ (∀ cell, row.cell = some cell → cell.IsSound ∧ firstIndent rows ≤ row.indent)
      ∧ RowsSound rows

/-- Whether a collection at a column is deeper than the innermost of `indents`. -/
def opensAt (indents : List Nat) (column : Nat) : Bool :=
  match indents with
  | [] => true
  | innermost :: _ => decide (innermost < column)

/-- The open collections that a row at a column leaves open. -/
def keptAt (indents : List Nat) (column : Nat) : List Nat :=
  indents.dropWhile fun innermost => decide (column < innermost)

/-- The ends of the open collections that a row at a column closes. -/
def endsAt (indents : List Nat) (column : Nat) : List Token :=
  (indents.takeWhile fun innermost => decide (column < innermost)).map fun _ => .blockEnd

/-- The open collections at the end of a row at a column. -/
def indentsAt (indents : List Nat) (column : Nat) : List Nat :=
  if opensAt (keptAt indents column) column then column :: keptAt indents column
  else keptAt indents column

/-- The tokens that rows are cut into, up to the end of the text. -/
def rowTokens (indents : List Nat) : List Row → List Token
  | [] => (indents.map fun _ => Token.blockEnd) ++ [.streamEnd]
  | row :: rows =>
    endsAt indents row.indent
      ++ ((if opensAt (keptAt indents row.indent) row.indent then [row.lead.start] else [])
      ++ (row.lead.tokens ++ (row.cellTokens ++ rowTokens (indentsAt indents row.indent) rows)))

end LayeredConfig.Yaml
