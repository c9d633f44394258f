import LayeredConfig.Number.Int64
import LayeredConfig.Number.Shortest
import LayeredConfig.Tree.PlainText
import LayeredConfig.Yaml.Quoted

/-!
# Scalars

`Scalar.read` types the text of a plain scalar: null and the booleans in any ASCII case, integers that fit
64 bits, decimals that are finite and do not vanish by rounding, and strings for all else. `Scalar.write`
gives the text of a scalar, with quotes around a string that would otherwise be read differently.
-/

namespace LayeredConfig.Yaml.Scalar

/-- The double that a text spells with a point or an exponent, unless rounding makes it infinite or takes
a number that is not zero to zero. -/
def double? (text : List Char) : Option Binary64 :=
  (DecimalNumeral.parse? text).bind fun numeral =>
    let value := Binary64.ofNumeral numeral
    if numeral.isFractional && value.isFinite && !(value.isZero && numeral.coefficient != 0) then
      some value
    else none

/-- The integer that a text spells, if it fits 64 bits; a numeral with too many digits is an error. -/
def int? (text : List Char) : Except Error (Option Int64) :=
  match IntegerNumeral.parse? text with
  | none => .ok none
  | some numeral =>
    if digitLimit < numeral.digits.length then .error .numeralTooLong
    else .ok (int64? numeral.value)

/-- The constant that a text names, in any ASCII case. -/
def constant? (text : List Char) : Option Tree :=
  let lower := text.map Char.toLower
  if lower = "null".toList ∨ lower = ['~'] then some .null
  else if lower = "true".toList then some (.bool true)
  else if lower = "false".toList then some (.bool false)
  else none

/-- The node that the text of a plain scalar stands for. -/
def read (text : List Char) : Except Error Tree :=
  match constant? text with
  | some node => .ok node
  | none =>
    match int? text with
    | .error e => .error e
    | .ok (some value) => .ok (.int value)
    | .ok none =>
      match double? text with
      | some value => .ok (.double value)
      | none => .ok (.string (String.ofList text))

/-- The characters that mean something to YAML and so keep a text from standing without quotes. -/
def isSpecial (c : Char) : Bool :=
  ":#&*?|-<>=!%@[]\x7b\x7d,'\"\x60\\".toList.contains c

/-- Whether a text has to stand in quotes, as a value or as a key. -/
def needsQuotes (text : List Char) (asKey : Bool) : Except Error Bool :=
  if text.isEmpty then .ok true
  else
    match read text with
    | .error e => .error e
    | .ok node => .ok <|
      node.kind != .string
        || text.any (fun c => isSpecial c || needsEscape c)
        || text.head? == some ' ' || text.getLast? == some ' '
        || "---".toList.isPrefixOf text || "...".toList.isPrefixOf text
        || (asKey && text.contains '.')

/-- A text, in quotes where it has to be. -/
def stringText (text : List Char) (asKey : Bool) : Except Error (List Char) :=
  (needsQuotes text asKey).map fun quotes => if quotes then quote text else text

/-- The text of a double; infinities and no number have names that are read as strings. -/
def doubleText : Binary64 → List Char
  | .nan _ => ".nan".toList
  | .infinity negative => if negative then "-.inf".toList else ".inf".toList
  | value => value.text

/-- The text of a scalar. -/
def write : Tree → Except Error (List Char)
  | .null => .ok "null".toList
  | .bool value => .ok (Tree.boolText value)
  | .int value => .ok (integerText value.toInt)
  | .double value => .ok (doubleText value)
  | .string text => stringText text.toList false
  | _ => .error .containerAsScalar

/-- The text of a key. -/
def writeKey (key : String) : Except Error (List Char) :=
  stringText key.toList true

end LayeredConfig.Yaml.Scalar
