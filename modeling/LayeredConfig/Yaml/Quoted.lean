import LayeredConfig.Text.Hex

/-!
# Quoted form

A text between double quotes. Quotes, backslashes, line feeds, carriage returns and tabs get an escape of
two characters, the other controls and the invisible separators one by their number, and all else stands
for itself.
-/

namespace LayeredConfig.Yaml

/-- Whether a character may not stand in the output as it is. -/
def needsEscape (c : Char) : Bool :=
  decide (c.toNat < 0x20) || (decide (0x7F ≤ c.toNat) && decide (c.toNat ≤ 0x9F))
    || c == '\u2028' || c == '\u2029' || c == '\ufeff'

/-- The escape of a character by its number. -/
def numericEscape (c : Char) : List Char :=
  if c.toNat ≤ 0xFF then '\\' :: 'x' :: Text.hexText 2 c.toNat
  else '\\' :: 'u' :: Text.hexText 4 c.toNat

/-- What stands for a character between double quotes. -/
def escapeChar (c : Char) : List Char :=
  if c = '\\' then ['\\', '\\']
  else if c = '"' then ['\\', '"']
  else if c = '\n' then ['\\', 'n']
  else if c = '\r' then ['\\', 'r']
  else if c = '\t' then ['\\', 't']
  else if needsEscape c then numericEscape c
  else [c]

/-- The quoted form of a text. -/
def quote (text : List Char) : List Char :=
  '"' :: text.flatMap escapeChar ++ ['"']

end LayeredConfig.Yaml
