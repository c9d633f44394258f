import LayeredConfig.Yaml.Cursor

/-!
# Plain scalars

A plain scalar is a row of runs without blanks. Spaces between runs stay, one line break between them
becomes a space, and further breaks stay. It ends at a comment, at a colon before a blank, at a line that
is indented too little, at a document marker, and in flow context at a flow indicator.
-/

namespace LayeredConfig.Yaml.Plain

/-- The characters that end a run in flow context. -/
def isFlowIndicator (c : Char) : Bool :=
  c == ',' || c == '?' || c == '[' || c == ']' || c == '\x7b' || c == '\x7d'

/-- Whether a colon before this character ends a run. -/
def endsAfterColon (inFlow : Bool) (next : Char) : Bool :=
  isBlankOrEnd next || (inFlow && isFlowIndicator next && next != '?')

/-- The run at the front of a text. -/
def run (inFlow : Bool) : List Char → List Char
  | [] => []
  | c :: rest =>
    if isBlankOrEnd c || (c == ':' && endsAfterColon inFlow (rest.headD endMark))
        || (inFlow && isFlowIndicator c) then []
    else c :: run inFlow rest

/-- The breaks and spaces ahead after a first break, spaces left out; none at a document marker. -/
def breaksFrom : Nat → Cursor → Option (List Char) × Cursor
  | 0, c => (some [], c)
  | fuel + 1, c =>
    if c.peek == ' ' then breaksFrom fuel c.next
    else if isBreak c.peek then
      let (lineBreak, c) := c.takeBreak
      if c.atMarker then (none, c)
      else
        let (more, c) := breaksFrom fuel c
        (more.map (lineBreak ++ ·), c)
    else (some [], c)

/-- What stands between two runs. -/
structure Gap where
  /-- The characters that the gap adds to the value; empty where the scalar ends. -/
  text : List Char
  /-- Whether the gap goes over a line break. -/
  crossesLine : Bool
  cursor : Cursor

/-- The gap ahead. -/
def gap (c : Cursor) : Gap :=
  let (spaces, c) := c.takeWhile (· == ' ')
  if isBreak c.peek then
    let (lineBreak, c) := c.takeBreak
    if c.atMarker then ⟨[], true, c⟩
    else
      match breaksFrom c.rest.length c with
      | (none, c) => ⟨[], true, c⟩
      | (some breaks, c) =>
        let first := if lineBreak != ['\n'] then lineBreak else if breaks.isEmpty then [' '] else []
        ⟨first ++ breaks, true, c⟩
  else ⟨spaces, false, c⟩

/-- A plain scalar and what ends it. -/
structure Found where
  text : List Char
  /-- Whether a line break stands between the scalar and the cursor. -/
  crossesLine : Bool
  cursor : Cursor

/-- Reads runs and gaps; outside of flow context a run has to stand at column `indent` or beyond. -/
def scanFrom (inFlow : Bool) (indent : Nat) : Nat → Bool → Cursor → Found
  | 0, crossed, c => ⟨[], crossed, c⟩
  | fuel + 1, crossed, c =>
    let first := run inFlow c.rest
    if c.peek == '#' || first.isEmpty then ⟨[], crossed, c⟩
    else
      let gap := gap (c.skip first.length)
      let after := gap.cursor
      if gap.text.isEmpty || after.peek == '#' || (!inFlow && decide (after.column < indent)) then
        ⟨first, gap.crossesLine, after⟩
      else
        let more := scanFrom inFlow indent fuel gap.crossesLine after
        let text := if more.text.isEmpty then first else first ++ gap.text ++ more.text
        ⟨text, more.crossesLine, more.cursor⟩

/-- Reads the plain scalar ahead. -/
def scan (inFlow : Bool) (indent : Nat) (c : Cursor) : Found :=
  scanFrom inFlow indent (c.rest.length + 1) false c

end LayeredConfig.Yaml.Plain
