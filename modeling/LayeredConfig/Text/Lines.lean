/-!
# Lines of a text

Two conventions for line ends: the wide one, in which eleven boundaries end a line, used when a text is
listed line by line, and the narrow one of text files, in which a carriage return reads as a line feed.
-/

namespace LayeredConfig.Text

/-- The characters that end a line when a text is listed line by line. -/
def isLineBoundary (c : Char) : Bool :=
  c == '\n' || c == '\r' || c == '\x0b' || c == '\x0c' || c == '\x1c' || c == '\x1d' || c == '\x1e'
    || c == '\u0085' || c == '\u2028' || c == '\u2029'

/-- Splits a text whose current line, reversed, is `line`; a final empty line is no line. -/
def linesFrom (line : List Char) : List Char → List (List Char)
  | [] => if line.isEmpty then [] else [line.reverse]
  | '\r' :: '\n' :: rest => line.reverse :: linesFrom [] rest
  | c :: rest =>
    if isLineBoundary c then line.reverse :: linesFrom [] rest else linesFrom (c :: line) rest

/-- The lines of a text without their ends; a carriage return with a line feed is one end. -/
def lines (text : List Char) : List (List Char) :=
  linesFrom [] text

/-- Reads a carriage return, with or without a line feed after it, as one line feed. -/
def foldReturns : List Char → List Char
  | [] => []
  | '\r' :: '\n' :: rest => '\n' :: foldReturns rest
  | c :: rest => (if c == '\r' then '\n' else c) :: foldReturns rest

end LayeredConfig.Text
