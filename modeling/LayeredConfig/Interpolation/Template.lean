import LayeredConfig.Text.Blank

/-!
# Templates

A template is a text with placeholders `${…}` in it. A placeholder ends at the brace that balances its
marker, so placeholders may nest. Its body is a time pattern after `now:`, the name of an environment
variable after `oc.env:`, with the text to use instead after the first comma, or a reference to another node.
A marker that nothing closes ends the template.
-/

namespace LayeredConfig

/-- A part of a template. -/
inductive Piece where
  /-- Text that stands for itself. -/
  | literal (text : List Char)
  /-- The time of day, written by a pattern. -/
  | now (pattern : List Char)
  /-- The value of a variable, or what the second template gives when it is unset or empty. -/
  | variable (name : List Char) (fallback : List Piece)
  /-- The value of another node. -/
  | reference (expression : List Char)
  /-- A marker that is not closed in this text. -/
  | unclosed (text : List Char)
  deriving Repr

/-- The parts of a text, in order. -/
abbrev Template := List Piece

namespace Template

/-- Whether a text holds a marker. -/
def hasMarker : List Char → Bool
  | [] => false
  | '$' :: '\x7b' :: _ => true
  | _ :: rest => hasMarker rest

/-- The text before the first marker, and what follows the marker if there is one. -/
def splitMarker : List Char → List Char × Option (List Char)
  | [] => ([], none)
  | '$' :: '\x7b' :: rest => ([], some rest)
  | c :: rest =>
    let (before, after) := splitMarker rest
    (c :: before, after)

/-- The text up to the brace that closes a marker `depth` levels out, and what follows that brace. -/
def splitClose (depth : Nat) : List Char → Option (List Char × List Char)
  | [] => none
  | '$' :: '\x7b' :: rest =>
    (splitClose (depth + 1) rest).map fun (body, after) => ('$' :: '\x7b' :: body, after)
  | '\x7d' :: rest =>
    match depth with
    | 0 => some ([], rest)
    | depth + 1 => (splitClose depth rest).map fun (body, after) => ('\x7d' :: body, after)
  | c :: rest => (splitClose depth rest).map fun (body, after) => (c :: body, after)

/-- The text before the first comma, and the text after it, which is empty if there is none. -/
def splitComma : List Char → List Char × List Char
  | [] => ([], [])
  | ',' :: rest => ([], rest)
  | c :: rest =>
    let (before, after) := splitComma rest
    (c :: before, after)

/-- What remains of a text after a given beginning, if it begins so. -/
def after? : List Char → List Char → Option (List Char)
  | [], text => some text
  | c :: start, d :: text => if c = d then after? start text else none
  | _ :: _, [] => none

theorem length_splitMarker {text before after : List Char}
    (h : splitMarker text = (before, some after)) : after.length < text.length := by
  fun_induction splitMarker text generalizing before with
  | case1 => simp at h
  | case2 rest => grind
  | case3 c rest _ _ _ _ ih => grind

theorem length_splitClose {depth : Nat} {text body after : List Char}
    (h : splitClose depth text = some (body, after)) : body.length + after.length < text.length := by
  fun_induction splitClose depth text generalizing body with
  | case1 => simp at h
  | case2 depth rest ih =>
    obtain ⟨⟨inner, _⟩, found, same⟩ := Option.map_eq_some_iff.1 h
    grind
  | case3 rest => grind
  | case4 rest depth ih =>
    obtain ⟨⟨inner, _⟩, found, same⟩ := Option.map_eq_some_iff.1 h
    grind
  | case5 depth c rest _ _ ih =>
    obtain ⟨⟨inner, _⟩, found, same⟩ := Option.map_eq_some_iff.1 h
    grind

theorem length_splitComma (text : List Char) : (splitComma text).2.length ≤ text.length := by
  fun_induction splitComma text with grind

theorem eq_append_of_after? {start text rest : List Char} (h : after? start text = some rest) :
    text = start ++ rest := by
  fun_induction after? start text with grind

theorem length_trim (text : List Char) : (Text.trim text).length ≤ text.length := by
  have dropped (chars : List Char) : (chars.dropWhile Text.isBlank).length ≤ chars.length :=
    (List.dropWhile_sublist _).length_le
  have first := dropped text
  have second := dropped (text.dropWhile Text.isBlank).reverse
  simp only [Text.trim, Text.trimWhere, List.length_reverse] at *
  omega

/-! ## Reading a template -/

/-- A literal, unless it would be empty. -/
def literal (text : List Char) : Template :=
  if text.isEmpty then [] else [.literal text]

/-- The beginning of the body of a time placeholder. -/
def nowMark : List Char := "now:".toList

/-- The beginning of the body of an environment placeholder. -/
def variableMark : List Char := "oc.env:".toList

mutual

/-- The parts of the rest of a text; `whole` is all of that text. -/
def pieces (whole rest : List Char) : Template :=
  match _marker : splitMarker rest with
  | (before, none) => literal before
  | (before, some inner) =>
    match _close : splitClose 0 inner with
    | none => literal before ++ [.unclosed whole]
    | some (body, after) => literal before ++ pieceOf body :: pieces whole after
termination_by rest.length
decreasing_by
  all_goals
    have := length_splitMarker _marker
    have := length_splitClose _close
    omega

/-- The part that a placeholder with this body is. -/
def pieceOf (body : List Char) : Piece :=
  match after? nowMark body with
  | some pattern => .now pattern
  | none =>
    match _setting : after? variableMark body with
    | some setting =>
      let fallback := Text.trim (splitComma setting).2
      .variable (Text.trim (splitComma setting).1) (pieces fallback fallback)
    | none => .reference body
termination_by body.length
decreasing_by
  have length : body.length = variableMark.length + setting.length := by
    rw [eq_append_of_after? _setting, List.length_append]
  have := length_trim (splitComma setting).2
  have := length_splitComma setting
  have : 0 < variableMark.length := by decide
  omega

end

/-- The parts of a text. -/
def parse (text : List Char) : Template :=
  pieces text text

end Template

end LayeredConfig
