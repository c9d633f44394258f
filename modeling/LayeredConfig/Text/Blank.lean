/-!
# Blank characters

The twenty-nine characters that trimming removes from the ends of a text: the ASCII blanks, the four
information separators, next line, and the Unicode space and line separators.
-/

namespace LayeredConfig.Text

/-- The code points of the blank characters, in increasing order. -/
def blankCodes : List Nat :=
  [0x09, 0x0A, 0x0B, 0x0C, 0x0D, 0x1C, 0x1D, 0x1E, 0x1F, 0x20, 0x85, 0xA0, 0x1680,
    0x2000, 0x2001, 0x2002, 0x2003, 0x2004, 0x2005, 0x2006, 0x2007, 0x2008, 0x2009, 0x200A,
    0x2028, 0x2029, 0x202F, 0x205F, 0x3000]

/-- Whether trimming removes this character. -/
def isBlank (c : Char) : Bool :=
  blankCodes.contains c.toNat

/-- The text without the characters of a class at either end. -/
def trimWhere (p : Char → Bool) (text : List Char) : List Char :=
  ((text.dropWhile p).reverse.dropWhile p).reverse

/-- The text without the blanks at either end. -/
def trim (text : List Char) : List Char :=
  trimWhere isBlank text

end LayeredConfig.Text
