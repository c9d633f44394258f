/-!
# Kinds of node

The seven kinds of node of a configuration tree, and the wishes of a typed reader.
-/

namespace LayeredConfig

/-- The kinds of node. -/
inductive Kind where
  | null
  | bool
  | int
  | double
  | string
  | sequence
  | mapping
  deriving DecidableEq, Repr

/-- The name of a kind, as messages show it. -/
def Kind.name : Kind → String
  | .null => "null"
  | .bool => "bool"
  | .int => "int"
  | .double => "double"
  | .string => "string"
  | .sequence => "sequence"
  | .mapping => "mapping"

/-- What a typed reader asks for; `number` accepts both kinds of number. -/
inductive Wanted where
  | bool
  | int
  | number
  | string
  | sequence
  | mapping
  deriving DecidableEq, Repr

/-- How the direct accessors name what they ask for. -/
def Wanted.label : Wanted → String
  | .bool => "a bool"
  | .int => "an int"
  | .number => "numeric"
  | .string => "a string"
  | .sequence => "a sequence"
  | .mapping => "a mapping"

/-- How the readers by path name what they ask for. -/
def Wanted.phrase : Wanted → String
  | .bool => "boolean"
  | .int => "integer"
  | .number => "numeric value"
  | .string => "string"
  | .sequence => "sequence"
  | .mapping => "mapping"

end LayeredConfig
