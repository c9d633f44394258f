import LayeredConfig.Error

/-!
# Tokens

The words of a YAML text. Besides the written indicators there are tokens for what indentation alone says:
the starts and ends of block collections, and the key mark of a key without a question mark.
-/

namespace LayeredConfig.Yaml

/-- Why a text is no YAML, or cannot be represented. -/
inductive Fault where
  | malformed
  | codePointTooLarge
  | codePointBeyondWord
  | numeralTooLong
  deriving DecidableEq, Repr

/-- The error that a fault in a named source is. -/
def Fault.toError (source : String) : Fault → Error
  | .malformed => .malformed source
  | .codePointTooLarge => .codePointTooLarge
  | .codePointBeyondWord => .codePointBeyondWord
  | .numeralTooLong => .numeralTooLong

/-- The five ways to write a scalar. -/
inductive Style where
  | plain
  | singleQuoted
  | doubleQuoted
  | literal
  | folded
  deriving DecidableEq, Repr

/-- The directives before a document. -/
inductive Directive where
  | version (major minor : Nat)
  | handle (handle expansion : List Char)
  | other
  deriving DecidableEq, Repr

/-- A token. A tag is a handle, if it has one, and what follows it. -/
inductive Token where
  | streamStart
  | streamEnd
  | directive (directive : Directive)
  | documentStart
  | documentEnd
  | blockSequenceStart
  | blockMappingStart
  | blockEnd
  | flowSequenceStart
  | flowSequenceEnd
  | flowMappingStart
  | flowMappingEnd
  | blockEntry
  | flowEntry
  | key
  | value
  | alias (name : List Char)
  | anchor (name : List Char)
  | tag (handle : Option (List Char)) (suffix : List Char)
  | scalar (text : List Char) (style : Style)
  deriving DecidableEq, Repr

end LayeredConfig.Yaml
