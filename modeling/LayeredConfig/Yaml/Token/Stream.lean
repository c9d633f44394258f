import LayeredConfig.Yaml.Token.BlockScalar
import LayeredConfig.Yaml.Token.FlowScalar
import LayeredConfig.Yaml.Token.Plain
import LayeredConfig.Yaml.Token.Property

/-!
# The tokens of a text

`tokens` cuts a text into tokens. A node may turn out to be a key only when a colon follows it, so a token
that may begin a key is held back until the colon comes, or until it can no longer come: a key without a
question mark lies on one line and takes at most 1024 characters. Tokens that have been handed out are
never changed. The result is the tokens that could be handed out, and the fault that stopped the cutting,
if one did.
-/

namespace LayeredConfig.Yaml

/-- The most characters between the start of a key without a question mark and its colon. -/
def keyReach : Nat := 1024

/-- A place where a key may have begun: the number of its first token, whether only a key may stand
there, and where it is. -/
structure PendingKey where
  number : Nat
  required : Bool
  index : Nat
  line : Nat
  column : Nat
  deriving DecidableEq, Repr

/-- Whether the colon of a key can no longer come at a place. -/
def PendingKey.isStale (key : PendingKey) (c : Cursor) : Bool :=
  key.line != c.line || decide (key.index + keyReach < c.index)

/-- The state of the cutting. -/
structure Lexer where
  cursor : Cursor
  /-- The columns of the open block collections, innermost first. -/
  indents : List Nat := []
  /-- Whether a key without a question mark may begin here. -/
  allowsKey : Bool := true
  /-- The place on this level of flow collections where a key may have begun. -/
  pending : Option PendingKey := none
  /-- The same for the enclosing levels, innermost first. -/
  outerPending : List (Option PendingKey) := []
  /-- How many tokens have been handed out. -/
  released : Nat := 0
  /-- The tokens that have been cut but not handed out. -/
  queue : List Token := []

namespace Lexer

/-- Whether a flow collection is open. -/
def inFlow (s : Lexer) : Bool :=
  !s.outerPending.isEmpty

/-- The least column for children of the innermost block collection. -/
def leastIndent (s : Lexer) : Nat :=
  match s.indents with
  | [] => 0
  | column :: _ => column + 1

/-- Adds a token to those that have been cut. -/
def push (s : Lexer) (token : Token) : Lexer :=
  { s with queue := s.queue ++ [token] }

/-- Adds a token and moves on. -/
def pushAt (s : Lexer) (token : Token) (c : Cursor) : Lexer :=
  { s with queue := s.queue ++ [token], cursor := c }

/-- Closes the block collections for which `closes` holds of their column, innermost first. -/
def closeWhile (closes : Nat → Bool) (s : Lexer) : Lexer :=
  { s with
    indents := s.indents.dropWhile closes
    queue := s.queue ++ (s.indents.takeWhile closes).map fun _ => .blockEnd }

/-- Closes the block collections that are deeper than the cursor; flow context ignores indentation. -/
def closeDeeper (s : Lexer) : Lexer :=
  if s.inFlow then s else s.closeWhile fun column => decide (s.cursor.column < column)

/-- Closes all block collections; flow context ignores this. -/
def closeAll (s : Lexer) : Lexer :=
  if s.inFlow then s else s.closeWhile fun _ => true

/-- Whether a collection at a column is deeper than the innermost open one. -/
def isDeeper (s : Lexer) (column : Nat) : Bool :=
  match s.indents with
  | [] => true
  | innermost :: _ => decide (innermost < column)

/-- Opens a block collection at the cursor if that is deeper than the innermost open one. -/
def openBlock (s : Lexer) (start : Token) : Lexer :=
  if s.isDeeper s.cursor.column then
    { s with indents := s.cursor.column :: s.indents, queue := s.queue ++ [start] }
  else s

/-! ## Places where a key may have begun -/

/-- Forgets a place if the colon can no longer come; a fault if a key had to be there. -/
def dropIfStale (c : Cursor) : Option PendingKey → Except Fault (Option PendingKey)
  | none => .ok none
  | some key =>
    if key.isStale c then
      if key.required then .error .malformed else .ok none
    else .ok (some key)

/-- Forgets every place that the cursor has left behind. -/
def dropStale (s : Lexer) : Except Fault Lexer := do
  let pending ← dropIfStale s.cursor s.pending
  let outerPending ← s.outerPending.mapM (dropIfStale s.cursor)
  return { s with pending, outerPending }

/-- Gives up the place on this level; a fault if a key had to be there. -/
def dropPending (s : Lexer) : Except Fault Lexer :=
  match s.pending with
  | some key => if key.required then .error .malformed else .ok { s with pending := none }
  | none => .ok s

/-- Notes that a key may begin with the next token, where one is allowed. -/
def notePending (s : Lexer) : Except Fault Lexer :=
  if s.allowsKey then do
    let s ← s.dropPending
    let c := s.cursor
    let required := !s.inFlow && s.indents.head? == some c.column
    let key := ⟨s.released + s.queue.length, required, c.index, c.line, c.column⟩
    return { s with pending := some key }
  else .ok s

/-! ## Cutting one token -/

/-- Moves over spaces, comments and line breaks; after a break in block context a key may begin. -/
def skipToToken : Nat → Lexer → Lexer
  | 0, s => s
  | fuel + 1, s =>
    let c := s.cursor.skipComment
    if isBreak c.peek then
      skipToToken fuel { s with cursor := c.takeBreak.2, allowsKey := s.allowsKey || !s.inFlow }
    else { s with cursor := c }

/-- Moves to the next token; a byte order mark at the very start is left out. -/
def toToken (s : Lexer) : Lexer :=
  let c := s.cursor
  let c := if c.index == 0 && c.peek == '\ufeff' then c.next else c
  skipToToken (c.rest.length + 1) { s with cursor := c }

/-- Cuts a directive or a document marker, which closes everything that is open in block context. -/
def cutBoundary (s : Lexer) (token : Cursor → Except Fault (Token × Cursor)) :
    Except Fault Lexer := do
  let s ← s.closeAll.dropPending
  let (token, c) ← token s.cursor
  return { s with allowsKey := false }.pushAt token c

/-- Cuts the start of a flow collection, which may begin a key. -/
def cutFlowStart (s : Lexer) (token : Token) : Except Fault Lexer := do
  let s ← s.notePending
  let s := s.pushAt token s.cursor.next
  return { s with allowsKey := true, pending := none, outerPending := s.pending :: s.outerPending }

/-- Cuts the end of a flow collection. -/
def cutFlowEnd (s : Lexer) (token : Token) : Except Fault Lexer := do
  let s ← s.dropPending
  let s := s.pushAt token s.cursor.next
  return { s with
    allowsKey := false
    pending := s.outerPending.head?.getD none
    outerPending := s.outerPending.tail }

/-- Cuts a comma of a flow collection. -/
def cutFlowEntry (s : Lexer) : Except Fault Lexer := do
  let s ← s.dropPending
  return { s with allowsKey := true }.pushAt .flowEntry s.cursor.next

/-- Opens a block collection for an indicator at the cursor, where one may stand. -/
def openFor (s : Lexer) (start : Token) : Except Fault Lexer :=
  if s.inFlow then .ok s
  else if s.allowsKey then .ok (s.openBlock start)
  else .error .malformed

/-- Cuts the dash of an item. -/
def cutBlockEntry (s : Lexer) : Except Fault Lexer := do
  let s ← s.openFor .blockSequenceStart
  let s ← s.dropPending
  return { s with allowsKey := true }.pushAt .blockEntry s.cursor.next

/-- Cuts the question mark of a key. -/
def cutKey (s : Lexer) : Except Fault Lexer := do
  let s ← s.openFor .blockMappingStart
  let s ← s.dropPending
  return { s with allowsKey := !s.inFlow }.pushAt .key s.cursor.next

/-- Puts the key mark, and the start of a mapping where one begins, before the token that began a key. -/
def markKey (s : Lexer) (key : PendingKey) : Lexer :=
  let place := key.number - s.released
  let opens := !s.inFlow && s.isDeeper key.column
  let marks := if opens then [Token.blockMappingStart, Token.key] else [Token.key]
  { s with
    indents := if opens then key.column :: s.indents else s.indents
    queue := s.queue.take place ++ marks ++ s.queue.drop place
    pending := none
    allowsKey := false }

/-- Cuts the colon before a value. -/
def cutValue (s : Lexer) : Except Fault Lexer := do
  match s.pending with
  | some key => return (s.markKey key).pushAt .value s.cursor.next
  | none => do
    let s ← s.openFor .blockMappingStart
    return { s with allowsKey := !s.inFlow }.pushAt .value s.cursor.next

/-- Cuts a token that may begin a key and after which none may begin. -/
def cutNode (s : Lexer) (token : Cursor → Except Fault (Token × Cursor)) : Except Fault Lexer := do
  let s ← s.notePending
  let (token, c) ← token s.cursor
  return { s with allowsKey := false }.pushAt token c

/-- Cuts a plain scalar; a key may begin behind it if it ends at a line break. -/
def cutPlain (s : Lexer) : Except Fault Lexer := do
  let s ← s.notePending
  let found := Plain.scan s.inFlow s.leastIndent s.cursor
  return { s with allowsKey := found.crossesLine }.pushAt (.scalar found.text .plain) found.cursor

/-- Cuts a block scalar. -/
def cutBlockScalar (s : Lexer) (folded : Bool) : Except Fault Lexer := do
  let s ← s.dropPending
  let (text, c) ← BlockScalar.scan folded s.leastIndent s.cursor
  let style := if folded then .folded else .literal
  return { s with allowsKey := true }.pushAt (.scalar text style) c

/-- Reads a name as a token. -/
def nameToken (token : List Char → Token) (c : Cursor) : Except Fault (Token × Cursor) :=
  (Property.name c).map fun (name, c) => (token name, c)

/-- Reads a quoted scalar as a token. -/
def quotedToken (double : Bool) (c : Cursor) : Except Fault (Token × Cursor) :=
  (FlowScalar.scan double c).map fun (text, c) =>
    (.scalar text (if double then .doubleQuoted else .singleQuoted), c)

/-- Whether an indicator counts as one: followed by a blank, or anywhere in flow context. -/
def isIndicator (s : Lexer) : Bool :=
  s.inFlow || isBlankOrEnd (s.cursor.peekAt 1)

/-- Whether a plain scalar may begin at the cursor. -/
def startsPlain (s : Lexer) : Bool :=
  let c := s.cursor.peek
  !(isBlankOrEnd c || "-?:,[]\x7b\x7d#&*!|>'\"%@\x60".toList.contains c)
    || (!isBlankOrEnd (s.cursor.peekAt 1) && (c == '-' || (!s.inFlow && (c == '?' || c == ':'))))

/-- Cuts the token at the cursor, which stands on one. -/
def cut (s : Lexer) : Except Fault Lexer :=
  let c := s.cursor
  let atMargin := c.column == 0
  match c.peek with
  | '%' => if atMargin then s.cutBoundary Property.directive else .error .malformed
  | '[' => s.cutFlowStart .flowSequenceStart
  | '\x7b' => s.cutFlowStart .flowMappingStart
  | ']' => s.cutFlowEnd .flowSequenceEnd
  | '\x7d' => s.cutFlowEnd .flowMappingEnd
  | ',' => s.cutFlowEntry
  | '*' => s.cutNode (nameToken .alias)
  | '&' => s.cutNode (nameToken .anchor)
  | '!' => s.cutNode Property.tag
  | '\'' => s.cutNode (quotedToken false)
  | '"' => s.cutNode (quotedToken true)
  | ch =>
    if ch == '-' && atMargin && c.atTriple '-' then
      s.cutBoundary fun c => .ok (.documentStart, c.skip 3)
    else if ch == '.' && atMargin && c.atTriple '.' then
      s.cutBoundary fun c => .ok (.documentEnd, c.skip 3)
    else if ch == '-' && isBlankOrEnd (c.peekAt 1) then s.cutBlockEntry
    else if ch == '?' && s.isIndicator then s.cutKey
    else if ch == ':' && s.isIndicator then s.cutValue
    else if ch == '|' && !s.inFlow then s.cutBlockScalar false
    else if ch == '>' && !s.inFlow then s.cutBlockScalar true
    else if s.startsPlain then s.cutPlain
    else .error .malformed

/-- Cuts the last token. -/
def cutEnd (s : Lexer) : Except Fault Lexer := do
  let s ← s.closeAll.dropPending
  return s.push .streamEnd

/-! ## Handing out -/

/-- The number of the first token that may still turn out to begin a key. -/
def firstPending (s : Lexer) : Option Nat :=
  ((s.pending :: s.outerPending).filterMap (·.map PendingKey.number)).min?

/-- How many tokens may be handed out. -/
def releasable (s : Lexer) : Nat :=
  match s.firstPending with
  | some number => number - s.released
  | none => s.queue.length

/-- The state after handing out a number of tokens. -/
def release (s : Lexer) (count : Nat) : Lexer :=
  { s with released := s.released + count, queue := s.queue.drop count }

/-- Cuts and hands out tokens up to the end or to a fault. -/
def run : Nat → Lexer → List Token × Option Fault
  | 0, _ => ([], some .malformed)
  | fuel + 1, s =>
    match s.toToken.dropStale with
    | .error f => ([], some f)
    | .ok s =>
      let s := s.closeDeeper
      if s.cursor.atEnd then
        match s.cutEnd with
        | .error f => ([], some f)
        | .ok s => (s.queue, none)
      else
        match s.cut.bind dropStale with
        | .error f => ([], some f)
        | .ok s =>
          let count := s.releasable
          let (more, fault) := run fuel (s.release count)
          (s.queue.take count ++ more, fault)

end Lexer

/-- The tokens of a text up to the first fault, and that fault. A text with an unprintable character has
none. -/
def tokens (text : List Char) : List Token × Option Fault :=
  if text.all isPrintable then
    let (rest, fault) := Lexer.run (text.length + 1) { cursor := .start text }
    (.streamStart :: rest, fault)
  else ([], some .malformed)

end LayeredConfig.Yaml
