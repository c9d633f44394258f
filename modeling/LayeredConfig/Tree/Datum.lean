import LayeredConfig.Number.Int64
import LayeredConfig.Text.Blank
import LayeredConfig.Text.Digit
import LayeredConfig.Tree.Basic

/-!
# Trees from loose data

A `Datum` is a value as a program hands it in, before anything is known about it: integers of any size,
byte strings, tuples, mappings with keys of any type, and trees made earlier. `Datum.toTree` turns it into a
tree depth first and in order, and fails at the first part that has no place in one. `Tree.make` makes a node of
one given kind.
-/

namespace LayeredConfig

/-- A value of a loosely typed program; `tree` is a part that is made into a tree on its own first. -/
inductive Datum where
  | null
  | bool (value : Bool)
  | int (value : Int)
  | double (value : Binary64)
  | text (value : String)
  | bytes (content : List UInt8)
  | sequence (items : List Datum)
  | tuple (items : List Datum)
  | mapping (entries : List (Datum × Datum))
  | tree (part : Datum)
  deriving Inhabited

namespace Datum

/-- The name of the type of a datum, as messages show it. -/
def typeName : Datum → String
  | .null => "NoneType"
  | .bool _ => "bool"
  | .int _ => "int"
  | .double _ => "float"
  | .text _ => "str"
  | .bytes _ => "bytes"
  | .sequence _ => "list"
  | .tuple _ => "tuple"
  | .mapping _ => "dict"
  | .tree _ => "ConfigNode"

/-- The integer node of an integer that fits 64 bits. -/
def intNode (n : Int) : Except Error Tree :=
  match int64? n with
  | some value => .ok (.int value)
  | none => .error (.integerOutOfRange n)

/-- What a datum is as a key: a text, or something of another type. -/
inductive Key where
  | text (value : String)
  | other (type : String)
  deriving DecidableEq

/-- What a datum is as a key. -/
def asKey : Datum → Key
  | .text value => .text value
  | datum => .other datum.typeName

/-- Takes the entries in order, the key of each before its value. -/
def takeEntries : List (Key × Except Error Tree) → Except Error (List (String × Tree))
  | [] => .ok []
  | (.other type, _) :: _ => .error (.keyNotText type)
  | (.text key, value) :: rest => do
    let value ← value
    let rest ← takeEntries rest
    return (key, value) :: rest

mutual

/-- Makes the tree of a datum. A repeated key keeps its first place and counts with its last value. -/
def build : Datum → Except Error Tree
  | .null => .ok .null
  | .bool value => .ok (.bool value)
  | .int value => intNode value
  | .double value => .ok (.double value)
  | .text value => .ok (.string value)
  | .bytes _ => .error (.unrepresentable "bytes")
  | .sequence items | .tuple items => (buildItems items).map .sequence
  | .mapping entries => (takeEntries (Entries.ofPairs (buildEntries entries))).map .mapping
  | .tree part => build part

/-- Makes the trees of the items, up to the first failure. -/
def buildItems : List Datum → Except Error (List Tree)
  | [] => .ok []
  | item :: rest => do
    let item ← build item
    let rest ← buildItems rest
    return item :: rest

/-- Makes the key and the tree of each entry. -/
def buildEntries : List (Datum × Datum) → List (Key × Except Error Tree)
  | [] => []
  | (key, value) :: rest => (asKey key, build value) :: buildEntries rest

end

mutual

/-- Whether a datum can be a key of a mapping: a scalar, or a tuple of such. -/
def isSimple : Datum → Bool
  | .tuple items => areSimple items
  | .sequence _ | .mapping _ | .tree _ => false
  | _ => true

/-- Whether all items can be keys. -/
def areSimple : List Datum → Bool
  | [] => true
  | item :: rest => isSimple item && areSimple rest

end

mutual

/-- The first failure of a datum before it is made into a tree: an integer with too many digits, or a part that
stands on its own and has no place in a tree; the innermost part first. -/
def partFailure? : Datum → Option Error
  | .int value => if digitLimit < (decimalDigits value.natAbs).length then some .numeralTooLong else none
  | .sequence items | .tuple items => itemsPartFailure? items
  | .mapping entries => entriesPartFailure? entries
  | .tree part =>
    (partFailure? part).or <|
      match build part with
      | .ok _ => none
      | .error e => some e
  | _ => none

/-- The first failure among the parts of the items. -/
def itemsPartFailure? : List Datum → Option Error
  | [] => none
  | item :: rest => (partFailure? item).or (itemsPartFailure? rest)

/-- The first failure among the parts of the entries, of the key before the value, and of the key once more when
it cannot be a key at all. -/
def entriesPartFailure? : List (Datum × Datum) → Option Error
  | [] => none
  | (key, value) :: rest =>
    (((partFailure? key).or (partFailure? value)).or
      (if isSimple key then none else some .keyNotSimple)).or (entriesPartFailure? rest)

end

/-- The datum itself, if nothing fails before it is made into a tree. -/
def settle (datum : Datum) : Except Error Datum :=
  match partFailure? datum with
  | some e => .error e
  | none => .ok datum

/-- The tree of a datum: the parts that stand on their own first, then the whole. -/
def toTree (datum : Datum) : Except Error Tree := do
  let datum ← datum.settle
  datum.build

/-- The digits of a text in which single underscores may stand between digits. -/
def dropUnderscores : List Char → Option (List Char)
  | a :: '_' :: b :: rest =>
    if a.isDigit && b.isDigit then (dropUnderscores (b :: rest)).map (a :: ·) else none
  | a :: rest => if a == '_' then none else (dropUnderscores rest).map (a :: ·)
  | [] => some []

/-- The number that a text spells: a decimal numeral, or a name of infinity or of no number. -/
def spelledDouble? (text : List Char) : Option Binary64 :=
  let (negative, body) := splitSign text
  let name := String.ofList (body.map Char.toLower)
  if name = "inf" ∨ name = "infinity" then some (.infinity negative)
  else if name = "nan" then some (.nan 0)
  else (dropUnderscores text).bind Binary64.parse?

/-- The ASCII character that counts for a character in the spelling of a number: a space for a blank beyond
ASCII, the digit of the same value for a digit of another script, else the character itself. -/
def spellingChar (c : Char) : Char :=
  if c.toNat < 128 then c
  else if Text.isBlank c then ' '
  else ((Text.decimalDigit? c).map Nat.digitChar).getD c

/-- Whether a character may stand around the spelling of a number: the six ASCII blanks. -/
def isSpellingBlank (c : Char) : Bool :=
  c == ' ' || ('\t' ≤ c && c ≤ '\r')

/-- The double that a text spells between blanks. -/
def textToDouble (text : List Char) : Except Error Binary64 :=
  match spelledDouble? (Text.trimWhere isSpellingBlank text) with
  | some x => .ok x
  | none => .error .notANumeral

/-- The double that a datum converts to. A text may use the blanks and digits of all scripts, a byte string
those of ASCII. -/
def toDouble : Datum → Except Error Binary64
  | .bool value => .ok (Binary64.ofInt (if value then 1 else 0))
  | .int value =>
    match Binary64.ofInt value with
    | .infinity _ => .error .integerTooLarge
    | x => .ok x
  | .double value => .ok value
  | .text value => textToDouble (value.toList.map spellingChar)
  | .bytes content => textToDouble (content.map fun byte => Char.ofNat byte.toNat)
  | _ => .error .notNumeric

/-- Whether a datum counts as true: all do but zeros and what is empty. -/
def isTrue : Datum → Bool
  | .null => false
  | .bool value => value
  | .int value => value != 0
  | .double value => !value.isZero
  | .text value => !value.isEmpty
  | .bytes content => !content.isEmpty
  | .sequence items | .tuple items => !items.isEmpty
  | .mapping entries => !entries.isEmpty
  | .tree _ => true

end Datum

namespace Tree

/-- The node of one kind made from a datum; kinds without a value ignore it. -/
def make (kind : Kind) (datum : Datum) : Except Error Tree :=
  match kind with
  | .null => .ok .null
  | .sequence => .ok (.sequence [])
  | .mapping => .ok (.mapping [])
  | .bool => .ok (.bool datum.isTrue)
  | .double => datum.toDouble.map .double
  | .int =>
    match datum with
    | .int value => Datum.intNode value
    | _ => .error (.wrongType "int" datum.typeName)
  | .string =>
    match datum with
    | .text value => .ok (.string value)
    | _ => .error (.wrongType "str" datum.typeName)

end Tree

end LayeredConfig
