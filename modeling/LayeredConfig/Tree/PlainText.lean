import LayeredConfig.Number.Shortest
import LayeredConfig.Tree.Basic

/-!
# Plain text of a scalar

The text that stands for a scalar inside another text: a string as it is, the words for null and the
booleans, and the digits of a number.
-/

namespace LayeredConfig.Tree

/-- The words for the booleans. -/
def boolText (value : Bool) : List Char :=
  if value then "true".toList else "false".toList

/-- The text of a scalar inside another text; containers have none. -/
def plainText : Tree → Except Error (List Char)
  | .null => .ok "null".toList
  | .bool value => .ok (boolText value)
  | .int value => .ok (integerText value.toInt)
  | .double value => .ok value.text
  | .string text => .ok text.toList
  | tree => .error (.containerInterpolated tree.kind)

end LayeredConfig.Tree
