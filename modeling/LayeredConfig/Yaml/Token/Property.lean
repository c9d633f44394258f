import LayeredConfig.Number.Numeral
import LayeredConfig.Text.Hex
import LayeredConfig.Yaml.Cursor
import LayeredConfig.Yaml.Token

/-!
# Node properties and directives

Anchors and aliases, tags with their handles and percent escapes, and the directive lines before a
document.
-/

namespace LayeredConfig.Yaml.Property

/-! ## Names -/

/-- Whether a character may follow the name of an anchor or alias. -/
def endsName (c : Char) : Bool :=
  isBlankOrEnd c || "?:,]\x7d%@\x60".toList.contains c

/-- Reads the name of the anchor or alias whose indicator is ahead. -/
def name (c : Cursor) : Except Fault (List Char × Cursor) :=
  let (word, c) := c.next.takeWhile isWordChar
  if word.isEmpty || !endsName c.peek then .error .malformed else .ok (word, c)

/-! ## Tags -/

/-- Whether a character may stand in a tag as it is; a percent sign begins an escape. -/
def isUriChar (c : Char) : Bool :=
  c.isAlphanum || "-;/?:@&=+$,_.!~*'()[]%".toList.contains c

/-- Reads a row of percent escapes, two digits each. -/
def escapedBytes : Nat → Cursor → Except Fault (List UInt8 × Cursor)
  | 0, c => .ok ([], c)
  | fuel + 1, c =>
    if c.peek == '%' then
      let digits := (c.rest.drop 1).take 2
      if digits.length = 2 ∧ digits.all Text.isHexDigit then do
        let (more, c) ← escapedBytes fuel (c.skip 3)
        return (UInt8.ofNat (Text.hexValue digits) :: more, c)
      else .error .malformed
    else .ok ([], c)

/-- Reads a row of percent escapes as the bytes of a text in UTF-8. -/
def escapedText (c : Cursor) : Except Fault (List Char × Cursor) := do
  let (bytes, c) ← escapedBytes c.rest.length c
  match String.fromUTF8? ⟨bytes.toArray⟩ with
  | some text => return (text.toList, c)
  | none => .error .malformed

/-- Reads the parts of a tag: plain runs and rows of escapes. -/
def uriFrom : Nat → Cursor → Except Fault (List Char × Cursor)
  | 0, c => .ok ([], c)
  | fuel + 1, c =>
    let (run, c) := c.takeWhile fun ch => isUriChar ch && ch != '%'
    if c.peek == '%' then do
      let (escaped, c) ← escapedText c
      let (more, c) ← uriFrom fuel c
      return (run ++ escaped ++ more, c)
    else .ok (run, c)

/-- Reads the text of a tag, which may not be empty. -/
def uri (c : Cursor) : Except Fault (List Char × Cursor) :=
  if isUriChar c.peek then uriFrom c.rest.length c else .error .malformed

/-- Reads a tag handle: one exclamation mark, two, or a word between two. -/
def handle (c : Cursor) : Except Fault (List Char × Cursor) :=
  if c.peek != '!' then .error .malformed
  else if c.peekAt 1 == ' ' then .ok (['!'], c.next)
  else
    let (word, after) := c.next.takeWhile isWordChar
    if after.peek == '!' then .ok ('!' :: word ++ ['!'], after.next) else .error .malformed

/-- Reads the tag whose exclamation mark is ahead: the verbatim form, the lone mark, or a handle and what
it is extended by. -/
def tag (c : Cursor) : Except Fault (Token × Cursor) := do
  let (token, c) ←
    if c.peekAt 1 == '<' then do
      let (suffix, c) ← uri (c.skip 2)
      if c.peek == '>' then pure (Token.tag none suffix, c.next) else .error .malformed
    else if isBlankOrEnd (c.peekAt 1) then pure (Token.tag none ['!'], c.next)
    else do
      let (handle, c) ←
        if ((c.rest.drop 1).takeWhile (!isSpaceOrEnd ·)).contains '!' then handle c
        else pure (['!'], c.next)
      let (suffix, c) ← uri c
      pure (Token.tag (some handle) suffix, c)
  if isSpaceOrEnd c.peek then return (token, c) else .error .malformed

/-! ## Directives -/

/-- Reads a number of a version. -/
def versionNumber (c : Cursor) : Except Fault (Nat × Cursor) :=
  let (digits, after) := c.takeWhile Char.isDigit
  if digits.isEmpty then .error .malformed
  else if digitLimit < digits.length then .error .numeralTooLong
  else .ok (digitsValue digits, after)

/-- Reads what follows the name of a version directive. -/
def version (c : Cursor) : Except Fault (Directive × Cursor) := do
  let (major, c) ← versionNumber (c.dropWhile (· == ' '))
  if c.peek != '.' then .error .malformed
  let (minor, c) ← versionNumber c.next
  if isSpaceOrEnd c.peek then return (.version major minor, c) else .error .malformed

/-- Reads what follows the name of a handle directive. -/
def handleDirective (c : Cursor) : Except Fault (Directive × Cursor) := do
  let (handle, c) ← handle (c.dropWhile (· == ' '))
  if c.peek != ' ' then .error .malformed
  let (expansion, c) ← uri (c.dropWhile (· == ' '))
  if isSpaceOrEnd c.peek then return (.handle handle expansion, c) else .error .malformed

/-- Reads the directive whose percent sign is ahead, and the rest of its line. -/
def directive (c : Cursor) : Except Fault (Token × Cursor) := do
  let (word, c) := c.next.takeWhile isWordChar
  if word.isEmpty || !isSpaceOrEnd c.peek then .error .malformed
  let (directive, c) ←
    if word = "YAML".toList then version c
    else if word = "TAG".toList then handleDirective c
    else pure (.other, c.dropWhile (!isBreak ·))
  let c := c.skipComment
  if isBreakOrEnd c.peek then return (.directive directive, c.takeBreak.2) else .error .malformed

end LayeredConfig.Yaml.Property
