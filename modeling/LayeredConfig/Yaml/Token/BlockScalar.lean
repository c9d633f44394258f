import LayeredConfig.Yaml.Cursor
import LayeredConfig.Yaml.Token

/-!
# Block scalars

A block scalar is the lines at one indentation below its header. The header tells what becomes of the
breaks at its end and may fix the indentation; in the folded style a single break between two lines that
both begin with text becomes a space.
-/

namespace LayeredConfig.Yaml.BlockScalar

/-- What becomes of the breaks at the end. -/
inductive Chomp where
  | strip
  | clip
  | keep
  deriving DecidableEq, Repr

/-- The header: how the end is treated, and the written indentation. -/
structure Header where
  chomp : Chomp
  increment : Option Nat

/-- The treatment that a sign asks for. -/
def chomp? : Char → Option Chomp
  | '+' => some .keep
  | '-' => some .strip
  | _ => none

/-- Reads a digit as an indentation, which may not be zero. -/
def increment? (c : Cursor) : Except Fault (Option Nat × Cursor) :=
  if c.peek.isDigit then
    if c.peek == '0' then .error .malformed
    else .ok (some (c.peek.toNat - '0'.toNat), c.next)
  else .ok (none, c)

/-- Reads the sign and the digit of a header, in either order. -/
def indicators (c : Cursor) : Except Fault (Header × Cursor) := do
  let (header, c) ←
    match chomp? c.peek with
    | some chomp => do
      let (increment, c) ← increment? c.next
      pure (Header.mk chomp increment, c)
    | none => do
      let (increment, c) ← increment? c
      match increment, chomp? c.peek with
      | some _, some chomp => pure (Header.mk chomp increment, c.next)
      | _, _ => pure (Header.mk .clip increment, c)
  if isSpaceOrEnd c.peek then return (header, c) else .error .malformed

/-- Reads a comment and the break that has to follow, up to the next line. -/
def ignoredLine (c : Cursor) : Except Fault Cursor :=
  let c := c.skipComment
  if isBreakOrEnd c.peek then .ok c.takeBreak.2 else .error .malformed

/-- Reads the empty lines ahead, and finds the deepest column that their spaces reach. -/
def indentationFrom : Nat → Cursor → List Char × Nat × Cursor
  | 0, c => ([], 0, c)
  | fuel + 1, c =>
    if c.peek == ' ' then
      let c := c.next
      let (breaks, deepest, after) := indentationFrom fuel c
      (breaks, max c.column deepest, after)
    else if isBreak c.peek then
      let (lineBreak, c) := c.takeBreak
      let (breaks, deepest, after) := indentationFrom fuel c
      (lineBreak ++ breaks, deepest, after)
    else ([], 0, c)

/-- The place after the spaces ahead, at most up to a column. -/
def skipIndent (indent : Nat) : Nat → Cursor → Cursor
  | 0, c => c
  | fuel + 1, c => if c.column < indent ∧ c.peek = ' ' then skipIndent indent fuel c.next else c

/-- Reads the empty lines ahead and the indentation of the line after them. -/
def breaksFrom (indent : Nat) : Nat → Cursor → List Char × Cursor
  | 0, c => ([], c)
  | fuel + 1, c =>
    let c := skipIndent indent indent c
    if isBreak c.peek then
      let (lineBreak, c) := c.takeBreak
      let (more, c) := breaksFrom indent fuel c
      (lineBreak ++ more, c)
    else ([], c)

/-- Reads empty lines and the indentation after them. -/
def breaks (indent : Nat) (c : Cursor) : List Char × Cursor :=
  breaksFrom indent (c.rest.length + 1) c

/-- The end of the value: the break of the last line and the empty lines after it. -/
def tail (chomp : Chomp) (lineBreak breaks : List Char) : List Char :=
  match chomp with
  | .strip => []
  | .clip => lineBreak
  | .keep => lineBreak ++ breaks

/-- Reads lines, the empty lines before the first of which are `before`. -/
def linesFrom (folded : Bool) (chomp : Chomp) (indent : Nat) :
    Nat → List Char → Cursor → List Char × Cursor
  | 0, _, c => ([], c)
  | fuel + 1, before, c =>
    if c.column == indent && !c.atEnd then
      let startsWithText := !isInset c.peek
      let (line, c) := c.takeWhile (!isBreak ·)
      let (lineBreak, c) := c.takeBreak
      let (between, c) := breaks indent c
      if c.column == indent && !c.atEnd then
        let joint :=
          if folded && lineBreak == ['\n'] && startsWithText && !isInset c.peek then
            if between.isEmpty then [' '] else []
          else lineBreak
        let (more, c) := linesFrom folded chomp indent fuel between c
        (before ++ line ++ joint ++ more, c)
      else (before ++ line ++ tail chomp lineBreak between, c)
    else (tail chomp [] before, c)

/-- Reads the block scalar whose indicator is ahead, in a collection whose children stand at `least` or
deeper. -/
def scan (folded : Bool) (least : Nat) (c : Cursor) : Except Fault (List Char × Cursor) := do
  let (header, c) ← indicators c.next
  let c ← ignoredLine c
  let least := max least 1
  let (before, indent, c) :=
    match header.increment with
    | none =>
      let (before, deepest, c) := indentationFrom c.rest.length c
      (before, max least deepest, c)
    | some increment =>
      let indent := least + increment - 1
      let (before, c) := breaks indent c
      (before, indent, c)
  return linesFrom folded header.chomp indent (c.rest.length + 1) before c

end LayeredConfig.Yaml.BlockScalar
