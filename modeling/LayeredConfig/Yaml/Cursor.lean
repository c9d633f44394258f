/-!
# A place in a text

The character classes of YAML and the `Cursor`: the characters still to come and the index, line and column
of the first of them. The end of the text is seen as `endMark`, a character that no readable text holds.
-/

namespace LayeredConfig.Yaml

/-- What a reader sees behind the last character. -/
def endMark : Char := '\x00'

/-- The characters that a YAML text may hold. -/
def isPrintable (c : Char) : Bool :=
  c == '\t' || c == '\n' || c == '\r' || c == '\u0085'
    || (decide (0x20 ≤ c.toNat) && decide (c.toNat ≤ 0x7E))
    || (decide (0xA0 ≤ c.toNat) && decide (c.toNat ≤ 0xD7FF))
    || (decide (0xE000 ≤ c.toNat) && decide (c.toNat ≤ 0xFFFD))
    || decide (0x10000 ≤ c.toNat)

/-- The characters that end a line. -/
def isBreak (c : Char) : Bool :=
  c == '\n' || c == '\r' || c == '\u0085' || c == '\u2028' || c == '\u2029'

/-- A line break or the end of the text. -/
def isBreakOrEnd (c : Char) : Bool :=
  isBreak c || c == endMark

/-- A space, a line break or the end of the text. -/
def isSpaceOrEnd (c : Char) : Bool :=
  c == ' ' || isBreakOrEnd c

/-- A space, a tab, a line break or the end of the text. -/
def isBlankOrEnd (c : Char) : Bool :=
  c == '\t' || isSpaceOrEnd c

/-- A space or a tab. -/
def isInset (c : Char) : Bool :=
  c == ' ' || c == '\t'

/-- The characters of anchors, directive names and tag handles. -/
def isWordChar (c : Char) : Bool :=
  c.isAlphanum || c == '-' || c == '_'

/-- A place in a text. -/
structure Cursor where
  rest : List Char
  index : Nat
  line : Nat
  column : Nat
  deriving DecidableEq, Repr

namespace Cursor

/-- The place before a text. -/
def start (text : List Char) : Cursor := ⟨text, 0, 0, 0⟩

/-- The character `n` places ahead. -/
def peekAt (c : Cursor) (n : Nat) : Char :=
  c.rest.getD n endMark

/-- The next character. -/
def peek (c : Cursor) : Char :=
  c.rest.headD endMark

/-- Whether no character is left. -/
def atEnd (c : Cursor) : Bool :=
  c.rest.isEmpty

/-- The place after the next character. A carriage return ends a line only if no line feed follows, and
a byte order mark takes no column. -/
def next (c : Cursor) : Cursor :=
  match c.rest with
  | [] => c
  | ch :: rest =>
    if isBreak ch && !(ch == '\r' && rest.head? == some '\n') then ⟨rest, c.index + 1, c.line + 1, 0⟩
    else if ch == '\ufeff' then ⟨rest, c.index + 1, c.line, c.column⟩
    else ⟨rest, c.index + 1, c.line, c.column + 1⟩

/-- The place after the next `n` characters. -/
def skip : Nat → Cursor → Cursor
  | 0, c => c
  | n + 1, c => skip n c.next

/-- The run of characters ahead that satisfy `p`, and the place after it. -/
def takeWhile (p : Char → Bool) (c : Cursor) : List Char × Cursor :=
  let run := c.rest.takeWhile p
  (run, c.skip run.length)

/-- The place after the run of characters that satisfy `p`. -/
def dropWhile (p : Char → Bool) (c : Cursor) : Cursor :=
  (c.takeWhile p).2

/-- The line break ahead, if any, as it counts in a value, and the place after it. -/
def takeBreak (c : Cursor) : List Char × Cursor :=
  match c.rest with
  | '\r' :: '\n' :: _ => (['\n'], c.skip 2)
  | ch :: _ =>
    if ch == '\r' || ch == '\n' || ch == '\u0085' then (['\n'], c.next)
    else if ch == '\u2028' || ch == '\u2029' then ([ch], c.next)
    else ([], c)
  | [] => ([], c)

/-- Whether three equal characters stand ahead, followed by a blank or the end. -/
def atTriple (ch : Char) (c : Cursor) : Bool :=
  [ch, ch, ch].isPrefixOf c.rest && isBlankOrEnd (c.peekAt 3)

/-- Whether a document marker stands ahead, if this is the start of a line. -/
def atMarker (c : Cursor) : Bool :=
  c.atTriple '-' || c.atTriple '.'

/-- The place after the spaces ahead and a comment behind them. -/
def skipComment (c : Cursor) : Cursor :=
  let c := c.dropWhile (· == ' ')
  if c.peek == '#' then c.dropWhile (!isBreak ·) else c

end Cursor

end LayeredConfig.Yaml
