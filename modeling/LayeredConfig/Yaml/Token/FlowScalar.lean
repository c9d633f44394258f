import LayeredConfig.Text.Hex
import LayeredConfig.Yaml.Cursor
import LayeredConfig.Yaml.Token

/-!
# Quoted scalars

A quoted scalar is a row of solid parts and gaps, closed by its quote. Between single quotes only a doubled
quote stands for another character; between double quotes a backslash begins an escape. A gap over a line
break is folded; a document marker at the start of a line may not occur.
-/

namespace LayeredConfig.Yaml.FlowScalar

/-- The character that an escape of one letter stands for. -/
def simpleEscape? : Char → Option Char
  | '0' => some '\x00'
  | 'a' => some '\x07'
  | 'b' => some '\x08'
  | 't' => some '\t'
  | '\t' => some '\t'
  | 'n' => some '\n'
  | 'v' => some '\x0b'
  | 'f' => some '\x0c'
  | 'r' => some '\r'
  | 'e' => some '\x1b'
  | ' ' => some ' '
  | '"' => some '"'
  | '\\' => some '\\'
  | '/' => some '/'
  | 'N' => some '\u0085'
  | '_' => some '\u00a0'
  | 'L' => some '\u2028'
  | 'P' => some '\u2029'
  | _ => none

/-- The number of digits after the letter of an escape by number. -/
def escapeWidth? : Char → Option Nat
  | 'x' => some 2
  | 'u' => some 4
  | 'U' => some 8
  | _ => none

/-- Whether a number is that of a surrogate, which no character has. -/
def isSurrogate (code : Nat) : Bool :=
  decide (0xD800 ≤ code) && decide (code ≤ 0xDFFF)

/-- What an escape gives that names a surrogate, whichever it is. This character fares as a surrogate does: no text that
is read may hold it, and none of the escapes that are written is for it. -/
def surrogateMark : Char := '\ufffe'

/-- The character of a code point, with a mark for a surrogate. A number beyond the last code point is refused, in
one way when it fits a signed word of 32 bits and in another when it does not. -/
def ofCodePoint (code : Nat) : Except Fault Char :=
  if 0x7FFFFFFF < code then .error .codePointBeyondWord
  else if 0x10FFFF < code then .error .codePointTooLarge
  else if isSurrogate code then .ok surrogateMark
  else .ok (Char.ofNat code)

/-- The breaks ahead after a first break, with the blanks around them left out. -/
def breaksFrom : Nat → Cursor → Except Fault (List Char × Cursor)
  | 0, c => .ok ([], c)
  | fuel + 1, c =>
    if c.atMarker then .error .malformed
    else
      let c := c.dropWhile isInset
      if isBreak c.peek then do
        let (lineBreak, c) := c.takeBreak
        let (more, c) ← breaksFrom fuel c
        return (lineBreak ++ more, c)
      else .ok ([], c)

/-- The breaks ahead after a first break. -/
def breaks (c : Cursor) : Except Fault (List Char × Cursor) :=
  breaksFrom (c.rest.length + 1) c

/-- Reads the escape whose backslash is ahead. -/
def escape (c : Cursor) : Except Fault (List Char × Cursor) :=
  let letter := c.peekAt 1
  match simpleEscape? letter with
  | some ch => .ok ([ch], c.skip 2)
  | none =>
    match escapeWidth? letter with
    | some width => do
      let digits := (c.rest.drop 2).take width
      if digits.length = width ∧ digits.all Text.isHexDigit then
        let ch ← ofCodePoint (Text.hexValue digits)
        return ([ch], c.skip (2 + width))
      else .error .malformed
    | none => if isBreak letter then breaks (c.next.takeBreak).2 else .error .malformed

/-- Reads up to a blank, a line break, the closing quote or the end. -/
def solid (double : Bool) : Nat → Cursor → Except Fault (List Char × Cursor)
  | 0, c => .ok ([], c)
  | fuel + 1, c =>
    let ch := c.peek
    if isBlankOrEnd ch then .ok ([], c)
    else if double then
      if ch == '"' then .ok ([], c)
      else if ch == '\\' then do
        let (escaped, c) ← escape c
        let (more, c) ← solid double fuel c
        return (escaped ++ more, c)
      else do
        let (more, c) ← solid double fuel c.next
        return (ch :: more, c)
    else if ch == '\'' then
      if c.peekAt 1 == '\'' then do
        let (more, c) ← solid double fuel (c.skip 2)
        return (ch :: more, c)
      else .ok ([], c)
    else do
      let (more, c) ← solid double fuel c.next
      return (ch :: more, c)

/-- Reads the blanks and breaks ahead. -/
def gap (c : Cursor) : Except Fault (List Char × Cursor) :=
  let (blanks, c) := c.takeWhile isInset
  if c.atEnd then .error .malformed
  else if isBreak c.peek then do
    let (lineBreak, c) := c.takeBreak
    let (breaks, c) ← breaks c
    let first := if lineBreak != ['\n'] then lineBreak else if breaks.isEmpty then [' '] else []
    return (first ++ breaks, c)
  else .ok (blanks, c)

/-- Reads solid parts and gaps up to the closing quote, and over it. -/
def scanFrom (double : Bool) : Nat → Cursor → Except Fault (List Char × Cursor)
  | 0, _ => .error .malformed
  | fuel + 1, c => do
    let (part, c) ← solid double c.rest.length c
    if c.peek == (if double then '"' else '\'') then return (part, c.next)
    else
      let (between, c) ← gap c
      let (more, c) ← scanFrom double fuel c
      return (part ++ between ++ more, c)

/-- Reads the quoted scalar whose opening quote is ahead. -/
def scan (double : Bool) (c : Cursor) : Except Fault (List Char × Cursor) :=
  scanFrom double (c.rest.length + 1) c.next

end LayeredConfig.Yaml.FlowScalar
