import LayeredConfig.Proofs.Interpolation.Placeholder

/-!
# Parts of a text

The parts that `Template.parse` finds say the same of a text as its placeholders do. `Reaches` are the parts that
filling in a template comes to, and `Filled` is what it gives. `reaches_parse_reference_iff`, `closed_iff` and
`expands_of_filled` take them to `Evaluates`, `Closed` and `Expands`, by induction on the length of the text: what
stands behind a placeholder is shorter, and so is the fallback inside it.
-/

namespace LayeredConfig.Interpolation

open Template

/-- The parts that filling in a template comes to: its own, and those of the fallbacks it uses. -/
inductive Reaches (surroundings : Surroundings) : Template → Piece → Prop
  | here {template : Template} {piece : Piece} (member : piece ∈ template) :
      Reaches surroundings template piece
  | fallback {template inner : Template} {name : List Char} {piece : Piece}
      (member : Piece.variable name inner ∈ template)
      (unset : surroundings.value? (String.ofList name) = none)
      (reaches : Reaches surroundings inner piece) : Reaches surroundings template piece

mutual

/-- The text that filling in a template gives. A reference to a path gives a text if `value` holds of them. -/
def Filled (surroundings : Surroundings) (value : KeyPath → List Char → Prop) :
    Template → List Char → Prop
  | [], text => text = []
  | piece :: rest, text =>
    ∃ part more, PieceFilled surroundings value piece part ∧ Filled surroundings value rest more
      ∧ text = part ++ more

/-- The text that filling in a part gives. -/
def PieceFilled (surroundings : Surroundings) (value : KeyPath → List Char → Prop) :
    Piece → List Char → Prop
  | .literal part, text => text = part
  | .now pattern, text => text = surroundings.now.write pattern
  | .variable name fallback, text =>
    match surroundings.value? (String.ofList name) with
    | some set => text = set.toList
    | none => Filled surroundings value fallback text
  | .reference expression, text =>
    ∃ path, KeyPath.parse (String.ofList expression) = .ok path ∧ value path text
  | .unclosed _, _ => False

end

variable {surroundings : Surroundings} {value : KeyPath → List Char → Prop}

/-! ## The parts of a text -/

theorem after?_eq_some_iff {start text rest : List Char} :
    after? start text = some rest ↔ text = start ++ rest := by
  refine ⟨eq_append_of_after?, ?_⟩
  intro same
  subst same
  induction start with
  | nil => rfl
  | cons c start ih =>
    rw [List.cons_append, after?, if_pos rfl]
    exact ih

theorem after?_eq_none_iff {start text : List Char} : after? start text = none ↔ ¬start <+: text := by
  constructor
  · intro none holds
    rcases holds with ⟨rest, same⟩
    rw [after?_eq_some_iff.2 same.symm] at none
    cases none
  · intro absent
    cases found : after? start text with
    | none => rfl
    | some rest => exact absurd ⟨rest, (eq_append_of_after? found).symm⟩ absent

theorem firstPlaceholder_of_split {text before inner body after : List Char}
    (marker : splitMarker text = (before, some inner)) (close : splitClose 0 inner = some (body, after)) :
    FirstPlaceholder text before body after := by
  have spec := splitMarker_spec text
  rw [marker] at spec
  obtain ⟨rfl, literal⟩ := spec
  obtain ⟨rfl, balanced⟩ := splitClose_eq_some_iff.1 close
  exact ⟨rfl, literal, balanced⟩

/-- A text is a literal, or ends with a marker that nothing closes, or has a first placeholder. -/
theorem pieces_cases (whole rest : List Char) :
    (hasMarker rest = false ∧ pieces whole rest = literal rest)
      ∨ (∃ before inner, rest = before ++ '$' :: '\x7b' :: inner ∧ hasMarker before = false
        ∧ splitClose 0 inner = none ∧ pieces whole rest = literal before ++ [.unclosed whole])
      ∨ ∃ before body after, FirstPlaceholder rest before body after
        ∧ pieces whole rest = literal before ++ pieceOf body :: pieces whole after := by
  rw [pieces]
  split
  · next before split =>
    have spec := splitMarker_spec rest
    rw [split] at spec
    obtain ⟨rfl, literal⟩ := spec
    exact Or.inl ⟨literal, rfl⟩
  · next before inner split =>
    split
    · next unclosed =>
      have spec := splitMarker_spec rest
      rw [split] at spec
      obtain ⟨rfl, literal⟩ := spec
      exact Or.inr (Or.inl ⟨before, inner, rfl, literal, unclosed, rfl⟩)
    · next body after closed =>
      exact Or.inr (Or.inr ⟨before, body, after, firstPlaceholder_of_split split closed, rfl⟩)

/-- The body of a placeholder is a time pattern, or the setting of a variable, or a reference. -/
theorem pieceOf_cases (body : List Char) :
    (∃ pattern, body = nowMark ++ pattern ∧ pieceOf body = .now pattern)
      ∨ (∃ setting, body = variableMark ++ setting ∧ ¬nowMark <+: body
        ∧ pieceOf body = .variable (Text.trim (splitComma setting).1) (parse (variableFallback setting)))
      ∨ (¬nowMark <+: body ∧ ¬variableMark <+: body ∧ pieceOf body = .reference body) := by
  rw [pieceOf]
  split
  · next pattern found => exact Or.inl ⟨pattern, eq_append_of_after? found, rfl⟩
  · next noTime =>
    rw [after?_eq_none_iff] at noTime
    split
    · next setting found => exact Or.inr (Or.inl ⟨setting, eq_append_of_after? found, noTime, rfl⟩)
    · next noVariable =>
      rw [after?_eq_none_iff] at noVariable
      exact Or.inr (Or.inr ⟨noTime, noVariable, rfl⟩)

theorem FirstPlaceholder.length_lt {text before body after : List Char}
    (first : FirstPlaceholder text before body after) : body.length + after.length < text.length := by
  rw [first.text]
  simp only [List.length_append, List.length_cons]
  omega

theorem length_variableFallback (setting : List Char) :
    (variableFallback setting).length < (variableMark ++ setting).length := by
  have trimmed := length_trim (splitComma setting).2
  have comma := length_splitComma setting
  have mark : 0 < variableMark.length := by decide
  rw [List.length_append, variableFallback]
  omega

theorem splitMarker_append {before : List Char} (literal : hasMarker before = false) (inner : List Char) :
    splitMarker (before ++ '$' :: '\x7b' :: inner) = (before, some inner) := by
  induction before with
  | nil => rfl
  | cons c before ih =>
    have marker : ¬(c = '$' ∧ before.head? = some '\x7b') := by
      intro holds
      rcases holds with ⟨rfl, head⟩
      rcases before with _ | ⟨d, before⟩
      · cases head
      · cases head
        cases literal
    have rest : hasMarker before = false := (hasMarker_cons_of_not marker).symm.trans literal
    rw [List.cons_append, splitMarker_cons_of_not, ih rest]
    intro holds
    rcases holds with ⟨dollar, head⟩
    rcases before with _ | ⟨d, before⟩
    · cases head
    · exact marker ⟨dollar, head⟩

/-- A text has only one first placeholder. -/
theorem FirstPlaceholder.unique {text before body after before' body' after' : List Char}
    (first : FirstPlaceholder text before body after)
    (second : FirstPlaceholder text before' body' after') :
    before = before' ∧ body = body' ∧ after = after' := by
  obtain ⟨rfl, literal, balanced⟩ := first
  obtain ⟨same, literal', balanced'⟩ := second
  have split := splitMarker_append literal (body ++ '\x7d' :: after)
  rw [same, splitMarker_append literal', Prod.mk.injEq, Option.some.injEq] at split
  obtain ⟨rfl, inner⟩ := split
  have closed : splitClose 0 (body ++ '\x7d' :: after) = some (body, after) :=
    splitClose_eq_some_iff.2 ⟨rfl, balanced⟩
  rw [← inner, splitClose_eq_some_iff.2 ⟨rfl, balanced'⟩, Option.some.injEq, Prod.mk.injEq] at closed
  exact ⟨rfl, closed.1.symm, closed.2.symm⟩

theorem hasMarker_append (before inner : List Char) :
    hasMarker (before ++ '$' :: '\x7b' :: inner) = true := by
  induction before with
  | nil => rfl
  | cons c before ih =>
    by_cases begins : c = '$' ∧ (before ++ '$' :: '\x7b' :: inner).head? = some '\x7b'
    · obtain ⟨rfl, head⟩ := begins
      rcases before with _ | ⟨d, before⟩
      · cases head
      · cases head
        rfl
    · rw [List.cons_append, hasMarker_cons_of_not begins, ih]

theorem FirstPlaceholder.hasMarker {text before body after : List Char}
    (first : FirstPlaceholder text before body after) : hasMarker text = true := by
  rw [first.text]
  exact hasMarker_append before _

/-- A text whose first marker is not closed has no first placeholder. -/
theorem not_first_of_unclosed {before inner before' body after : List Char}
    (literal : hasMarker before = false) (unclosed : splitClose 0 inner = none)
    (first : FirstPlaceholder (before ++ '$' :: '\x7b' :: inner) before' body after) : False := by
  have split := splitMarker_append literal inner
  rw [first.text, splitMarker_append first.literal, Prod.mk.injEq, Option.some.injEq] at split
  rw [← split.2, splitClose_eq_some_iff.2 ⟨rfl, first.balanced⟩] at unclosed
  cases unclosed

theorem pieces_of_literal (whole : List Char) {rest : List Char} (noMarker : hasMarker rest = false) :
    pieces whole rest = literal rest := by
  rcases pieces_cases whole rest with ⟨-, parts⟩ | ⟨before, inner, rfl, -⟩ | ⟨_, _, _, first, -⟩
  · exact parts
  · cases noMarker.symm.trans (hasMarker_append before inner)
  · cases noMarker.symm.trans first.hasMarker

theorem pieces_of_first (whole : List Char) {rest before body after : List Char}
    (first : FirstPlaceholder rest before body after) :
    pieces whole rest = literal before ++ pieceOf body :: pieces whole after := by
  rcases pieces_cases whole rest with ⟨noMarker, -⟩ | ⟨before, inner, rfl, noMarker, unclosed, -⟩
    | ⟨before', body', after', second, parts⟩
  · cases noMarker.symm.trans first.hasMarker
  · exact absurd first (not_first_of_unclosed noMarker unclosed)
  · obtain ⟨rfl, rfl, rfl⟩ := first.unique second
    exact parts

theorem pieceOf_reference {body : List Char} (noTime : ¬nowMark <+: body) (noVariable : ¬variableMark <+: body) :
    pieceOf body = .reference body := by
  rcases pieceOf_cases body with ⟨pattern, rfl, -⟩ | ⟨setting, rfl, -, -⟩ | ⟨-, -, piece⟩
  · exact absurd ⟨pattern, rfl⟩ noTime
  · exact absurd ⟨setting, rfl⟩ noVariable
  · exact piece

theorem not_nowMark_variable (setting : List Char) : ¬nowMark <+: variableMark ++ setting := by
  intro holds
  rcases holds with ⟨pattern, same⟩
  cases same

theorem pieceOf_variable (setting : List Char) :
    pieceOf (variableMark ++ setting)
      = .variable (Text.trim (splitComma setting).1) (parse (variableFallback setting)) := by
  rcases pieceOf_cases (variableMark ++ setting) with ⟨pattern, same, -⟩ | ⟨setting', same, -, piece⟩
    | ⟨-, noVariable, -⟩
  · exact absurd ⟨pattern, same.symm⟩ (not_nowMark_variable setting)
  · cases List.append_cancel_left same
    exact piece
  · exact absurd ⟨setting, rfl⟩ noVariable

/-! ## What filling in gives -/

/-- Parts that give a text under one reading of references give it under every reading that agrees with it. -/
theorem Filled.mono {value value' : KeyPath → List Char → Prop}
    (agree : ∀ path text, value path text → value' path text) :
    (template : Template) → {text : List Char} → Filled surroundings value template text →
      Filled surroundings value' template text
  | [], _, filled => filled
  | .literal _ :: rest, _, ⟨part, more, given, filled, same⟩ =>
    ⟨part, more, given, Filled.mono agree rest filled, same⟩
  | .now _ :: rest, _, ⟨part, more, given, filled, same⟩ =>
    ⟨part, more, given, Filled.mono agree rest filled, same⟩
  | .variable name fallback :: rest, _, ⟨part, more, given, filled, same⟩ => by
    refine ⟨part, more, ?_, Filled.mono agree rest filled, same⟩
    rw [PieceFilled] at given ⊢
    split at given
    · exact given
    · exact Filled.mono agree fallback given
  | .reference _ :: rest, _, ⟨part, more, ⟨path, parses, found⟩, filled, same⟩ =>
    ⟨part, more, ⟨path, parses, agree path part found⟩, Filled.mono agree rest filled, same⟩

theorem PieceFilled.mono {value value' : KeyPath → List Char → Prop}
    (agree : ∀ path text, value path text → value' path text) {piece : Piece} {text : List Char}
    (filled : PieceFilled surroundings value piece text) : PieceFilled surroundings value' piece text := by
  have alone : Filled surroundings value [piece] text := ⟨text, [], filled, rfl, (List.append_nil text).symm⟩
  obtain ⟨part, more, given, rfl, same⟩ := Filled.mono agree [piece] alone
  rwa [same, List.append_nil]

theorem Filled.of_mem {template : Template} {text : List Char} {piece : Piece}
    (filled : Filled surroundings value template text) (member : piece ∈ template) :
    ∃ part, PieceFilled surroundings value piece part := by
  induction template generalizing text with
  | nil => cases member
  | cons first rest ih =>
    obtain ⟨part, more, given, filled, -⟩ := filled
    rcases List.mem_cons.1 member with rfl | member
    · exact ⟨part, given⟩
    · exact ih filled member

/-- Every part that filling in comes to gives a text. -/
theorem Filled.of_reaches {template : Template} {text : List Char} {piece : Piece}
    (filled : Filled surroundings value template text) (reaches : Reaches surroundings template piece) :
    ∃ part, PieceFilled surroundings value piece part := by
  induction reaches generalizing text with
  | here member => exact filled.of_mem member
  | fallback member unset _ ih =>
    obtain ⟨part, given⟩ := filled.of_mem member
    rw [PieceFilled, unset] at given
    exact ih given

theorem Reaches.cons {template : Template} {first piece : Piece}
    (reaches : Reaches surroundings template piece) : Reaches surroundings (first :: template) piece := by
  cases reaches with
  | here member => exact .here (List.mem_cons_of_mem first member)
  | fallback member unset reaches => exact .fallback (List.mem_cons_of_mem first member) unset reaches

/-- Two readings of references that agree where filling in comes to give one text. -/
theorem Filled.unique {value' : KeyPath → List Char → Prop} :
    (template : Template) → {text text' : List Char} →
      (∀ expression path, Reaches surroundings template (.reference expression) →
        KeyPath.parse (String.ofList expression) = .ok path →
        ∀ part part', value path part → value' path part' → part = part') →
      Filled surroundings value template text → Filled surroundings value' template text' → text = text'
  | [], _, _, _, filled, filled' => Eq.trans filled (Eq.symm filled')
  | piece :: rest, text, text', agree, ⟨part, more, given, filled, same⟩,
      ⟨part', more', given', filled', same'⟩ => by
    have tail : more = more' :=
      Filled.unique rest (fun expression path reaches => agree expression path reaches.cons) filled filled'
    suffices head : part = part' by rw [same, same', head, tail]
    match piece with
    | .literal _ => exact Eq.trans given (Eq.symm given')
    | .now _ => exact Eq.trans given (Eq.symm given')
    | .variable name fallback =>
      rw [PieceFilled] at given given'
      split at given
      · next set found =>
        rw [found] at given'
        exact given.trans given'.symm
      · next unset =>
        rw [unset] at given'
        refine Filled.unique fallback (fun expression path reaches => ?_) given given'
        exact agree expression path (.fallback List.mem_cons_self unset reaches)
    | .reference expression =>
      obtain ⟨path, parses, found⟩ := given
      obtain ⟨path', parses', found'⟩ := given'
      cases parses.symm.trans parses'
      exact agree expression path (.here List.mem_cons_self) parses part part' found found'

/-! ## The rules of a text, read backwards -/

theorem closed_iff_of_first {text before body after : List Char}
    (first : FirstPlaceholder text before body after) : Closed text ↔ Closed after := by
  refine ⟨fun closed => ?_, .placeholder first⟩
  cases closed with
  | literal literal => cases literal.symm.trans first.hasMarker
  | placeholder second rest =>
    obtain ⟨-, -, rfl⟩ := first.unique second
    exact rest

theorem evaluates_iff_of_first {text before body after expression : List Char}
    (first : FirstPlaceholder text before body after) :
    Evaluates surroundings text expression ↔
      (¬nowMark <+: body ∧ ¬variableMark <+: body ∧ expression = body)
        ∨ (∃ setting, body = variableMark ++ setting
          ∧ surroundings.value? (variableName setting) = none
          ∧ Evaluates surroundings (variableFallback setting) expression)
        ∨ Evaluates surroundings after expression := by
  constructor
  · intro evaluates
    cases evaluates with
    | here second noTime noVariable =>
      obtain ⟨-, rfl, -⟩ := first.unique second
      exact Or.inl ⟨noTime, noVariable, rfl⟩
    | later second rest =>
      obtain ⟨-, -, rfl⟩ := first.unique second
      exact Or.inr (Or.inr rest)
    | fallback second sets unset inner =>
      obtain ⟨-, rfl, -⟩ := first.unique second
      obtain ⟨rfl, rfl⟩ := isSetting_iff.1 sets
      exact Or.inr (Or.inl ⟨_, rfl, Surroundings.value?_eq_none_iff.2 unset, inner⟩)
  · intro holds
    rcases holds with ⟨noTime, noVariable, rfl⟩ | ⟨setting, rfl, unset, inner⟩ | rest
    · exact .here first noTime noVariable
    · exact .fallback first (isSetting setting) (Surroundings.value?_eq_none_iff.1 unset) inner
    · exact .later first rest

theorem Evaluates.exists_first {text expression : List Char}
    (evaluates : Evaluates surroundings text expression) :
    ∃ before body after, FirstPlaceholder text before body after := by
  cases evaluates with
  | here first => exact ⟨_, _, _, first⟩
  | later first => exact ⟨_, _, _, first⟩
  | fallback first => exact ⟨_, _, _, first⟩

theorem expands_iff_of_first {text before body after whole : List Char}
    (first : FirstPlaceholder text before body after) :
    Expands surroundings value text whole ↔
      ∃ shown more, StandsFor surroundings value body shown ∧ Expands surroundings value after more
        ∧ whole = before ++ (shown ++ more) := by
  constructor
  · intro expands
    cases expands with
    | literal literal => cases literal.symm.trans first.hasMarker
    | placeholder second part rest =>
      obtain ⟨rfl, rfl, rfl⟩ := first.unique second
      exact ⟨_, _, part, rest, rfl⟩
  · intro holds
    rcases holds with ⟨shown, more, part, rest, rfl⟩
    exact .placeholder first part rest

/-! ## Parts and placeholders -/

theorem filled_literal_iff {before text : List Char} {rest : Template} :
    Filled surroundings value (literal before ++ rest) text
      ↔ ∃ more, Filled surroundings value rest more ∧ text = before ++ more := by
  cases before with
  | nil => exact ⟨fun filled => ⟨text, filled, rfl⟩, fun ⟨more, filled, same⟩ => same ▸ filled⟩
  | cons c before =>
    constructor
    · intro holds
      rcases holds with ⟨part, more, rfl, filled, same⟩
      exact ⟨more, filled, same⟩
    · intro holds
      rcases holds with ⟨more, filled, same⟩
      exact ⟨c :: before, more, rfl, filled, same⟩

theorem standsFor_cases {body text : List Char} (stands : StandsFor surroundings value body text) :
    (∃ pattern, body = nowMark ++ pattern ∧ text = surroundings.now.write pattern)
      ∨ (∃ setting, body = variableMark ++ setting ∧
        match surroundings.value? (variableName setting) with
        | some set => text = set.toList
        | none => Expands surroundings value (variableFallback setting) text)
      ∨ (¬nowMark <+: body ∧ ¬variableMark <+: body ∧
        ∃ path, KeyPath.parse (String.ofList body) = .ok path ∧ value path text) := by
  cases stands with
  | now pattern => exact Or.inl ⟨pattern, rfl, rfl⟩
  | @environment setting _ _ _ sets set filled =>
    obtain ⟨rfl, rfl⟩ := isSetting_iff.1 sets
    refine Or.inr (Or.inl ⟨setting, rfl, ?_⟩)
    rw [Surroundings.value?_eq_some_iff.2 ⟨set, filled⟩]
  | @fallback setting _ _ _ sets unset inner =>
    obtain ⟨rfl, rfl⟩ := isSetting_iff.1 sets
    refine Or.inr (Or.inl ⟨setting, rfl, ?_⟩)
    rw [Surroundings.value?_eq_none_iff.2 unset]
    exact inner
  | reference noTime noVariable parses found =>
    exact Or.inr (Or.inr ⟨noTime, noVariable, _, parses, found⟩)

theorem pieceFilled_pieceOf_iff {body text : List Char}
    (shorter : ∀ inner : List Char, inner.length < body.length → ∀ text,
      Filled surroundings value (parse inner) text ↔ Expands surroundings value inner text) :
    PieceFilled surroundings value (pieceOf body) text ↔ StandsFor surroundings value body text := by
  rcases pieceOf_cases body with ⟨pattern, rfl, piece⟩ | ⟨setting, rfl, -, piece⟩ | ⟨noTime, noVariable, piece⟩
  · rw [piece, PieceFilled]
    refine ⟨fun same => same ▸ .now pattern, fun stands => ?_⟩
    rcases standsFor_cases stands with ⟨pattern', same, shown⟩ | ⟨setting, same, -⟩ | ⟨noTime, -⟩
    · rw [List.append_cancel_left same, shown]
    · exact absurd ⟨pattern, same⟩ (not_nowMark_variable setting)
    · exact absurd ⟨pattern, rfl⟩ noTime
  · rw [piece, PieceFilled]
    have inner := shorter (variableFallback setting) (length_variableFallback setting) text
    constructor
    · intro given
      split at given
      · next known =>
        obtain ⟨set, filled⟩ := Surroundings.value?_eq_some_iff.1 known
        exact given ▸ .environment (isSetting setting) set filled
      · next unset =>
        exact .fallback (isSetting setting) (Surroundings.value?_eq_none_iff.1 unset) (inner.1 given)
    · intro stands
      rcases standsFor_cases stands with ⟨pattern, same, -⟩ | ⟨setting', same, given⟩ | ⟨-, noVariable, -⟩
      · exact absurd ⟨pattern, same.symm⟩ (not_nowMark_variable setting)
      · cases List.append_cancel_left same
        split
        · next set => rwa [variableName, set] at given
        · next unset =>
          rw [variableName, unset] at given
          exact inner.2 given
      · exact absurd ⟨setting, rfl⟩ noVariable
  · rw [piece, PieceFilled]
    constructor
    · intro holds
      rcases holds with ⟨path, parses, found⟩
      exact .reference noTime noVariable parses found
    · intro stands
      rcases standsFor_cases stands with ⟨pattern, same, -⟩ | ⟨setting, same, -⟩ | ⟨-, -, given⟩
      · exact absurd ⟨pattern, same.symm⟩ noTime
      · exact absurd ⟨setting, same.symm⟩ noVariable
      · exact given

/-- Filling in the parts of a text gives what the text expands to. -/
theorem filled_pieces_iff (whole rest text : List Char) :
    Filled surroundings value (pieces whole rest) text ↔ Expands surroundings value rest text := by
  rcases pieces_cases whole rest with ⟨noMarker, parts⟩ | ⟨before, inner, rfl, literal, unclosed, parts⟩
    | ⟨before, body, after, first, parts⟩
  · rw [parts, ← List.append_nil (literal rest), filled_literal_iff]
    constructor
    · intro holds
      rcases holds with ⟨more, rfl, rfl⟩
      rw [List.append_nil]
      exact .literal noMarker
    · intro expands
      cases expands with
      | literal => exact ⟨[], rfl, (List.append_nil _).symm⟩
      | placeholder first => cases noMarker.symm.trans first.hasMarker
  · rw [parts, filled_literal_iff]
    constructor
    · intro holds
      rcases holds with ⟨_, ⟨_, _, given, -, -⟩, -⟩
      cases given
    · intro expands
      cases expands with
      | literal noMarker => cases noMarker.symm.trans (hasMarker_append before inner)
      | placeholder first => exact absurd first (not_first_of_unclosed literal unclosed)
  · have shorter := first.length_lt
    have part (shown : List Char) :
        PieceFilled surroundings value (pieceOf body) shown ↔ StandsFor surroundings value body shown :=
      pieceFilled_pieceOf_iff fun inner less text => filled_pieces_iff inner inner text
    rw [parts, filled_literal_iff, expands_iff_of_first first]
    constructor
    · intro holds
      rcases holds with ⟨_, ⟨shown, more, given, filled, rfl⟩, rfl⟩
      exact ⟨shown, more, (part shown).1 given, (filled_pieces_iff whole after more).1 filled, rfl⟩
    · intro holds
      rcases holds with ⟨shown, more, stands, expands, rfl⟩
      refine ⟨shown ++ more, ⟨shown, more, (part shown).2 stands, ?_, rfl⟩, rfl⟩
      exact (filled_pieces_iff whole after more).2 expands
termination_by rest.length
decreasing_by all_goals omega

theorem reaches_cons_iff {first piece : Piece} {rest : Template} :
    Reaches surroundings (first :: rest) piece ↔
      piece = first
        ∨ (∃ name inner, first = .variable name inner
          ∧ surroundings.value? (String.ofList name) = none ∧ Reaches surroundings inner piece)
        ∨ Reaches surroundings rest piece := by
  constructor
  · intro reaches
    cases reaches with
    | here member =>
      rcases List.mem_cons.1 member with same | member
      · exact Or.inl same
      · exact Or.inr (Or.inr (.here member))
    | fallback member unset reaches =>
      rcases List.mem_cons.1 member with same | member
      · exact Or.inr (Or.inl ⟨_, _, same.symm, unset, reaches⟩)
      · exact Or.inr (Or.inr (.fallback member unset reaches))
  · intro holds
    rcases holds with rfl | ⟨name, inner, rfl, unset, reaches⟩ | reaches
    · exact .here List.mem_cons_self
    · exact .fallback List.mem_cons_self unset reaches
    · exact reaches.cons

theorem not_reaches_nil (piece : Piece) : ¬Reaches surroundings [] piece := by
  intro reaches
  cases reaches with
  | here member => cases member
  | fallback member => cases member

theorem reaches_literal_iff {before : List Char} {rest : Template} {piece : Piece}
    (noLiteral : ∀ text, piece ≠ .literal text) :
    Reaches surroundings (literal before ++ rest) piece ↔ Reaches surroundings rest piece := by
  rcases before with _ | ⟨c, before⟩
  · rfl
  · refine ⟨fun reaches => ?_, Reaches.cons⟩
    rcases reaches_cons_iff.1 reaches with same | ⟨name, inner, same, -⟩ | reaches
    · exact absurd same (noLiteral _)
    · cases same
    · exact reaches

/-- Filling in the parts of a text comes to the references that the text evaluates. -/
theorem reaches_reference_iff (whole rest expression : List Char) :
    Reaches surroundings (pieces whole rest) (.reference expression)
      ↔ Evaluates surroundings rest expression := by
  have noLiteral (text : List Char) : Piece.reference expression ≠ .literal text := nofun
  rcases pieces_cases whole rest with ⟨noMarker, parts⟩ | ⟨before, inner, rfl, literal, unclosed, parts⟩
    | ⟨before, body, after, first, parts⟩
  · rw [parts, ← List.append_nil (literal rest), reaches_literal_iff noLiteral]
    refine ⟨fun reaches => absurd reaches (not_reaches_nil _), fun evaluates => ?_⟩
    obtain ⟨_, _, _, first⟩ := evaluates.exists_first
    cases noMarker.symm.trans first.hasMarker
  · rw [parts, reaches_literal_iff noLiteral, reaches_cons_iff]
    constructor
    · intro holds
      rcases holds with same | ⟨_, _, same, -⟩ | reaches
      · cases same
      · cases same
      · exact absurd reaches (not_reaches_nil _)
    · intro evaluates
      obtain ⟨_, _, _, first⟩ := evaluates.exists_first
      exact absurd first (not_first_of_unclosed literal unclosed)
  · have shorter := first.length_lt
    rw [parts, reaches_literal_iff noLiteral, reaches_cons_iff, evaluates_iff_of_first first,
      reaches_reference_iff whole after expression, ← or_assoc, ← or_assoc]
    refine or_congr_left ?_
    rcases pieceOf_cases body with ⟨pattern, rfl, piece⟩ | ⟨setting, rfl, noTime, piece⟩
      | ⟨noTime, noVariable, piece⟩
    · rw [piece]
      constructor
      · intro holds
        rcases holds with same | ⟨_, _, same, -⟩
        · cases same
        · cases same
      · intro holds
        rcases holds with ⟨noTime, -⟩ | ⟨setting, same, -⟩
        · exact absurd ⟨pattern, rfl⟩ noTime
        · exact absurd ⟨pattern, same⟩ (not_nowMark_variable setting)
    · have less := length_variableFallback setting
      have inner := reaches_reference_iff (variableFallback setting) (variableFallback setting) expression
      rw [piece]
      constructor
      · intro holds
        rcases holds with same | ⟨_, _, same, unset, reaches⟩
        · cases same
        · cases same
          exact Or.inr ⟨setting, rfl, unset, inner.1 reaches⟩
      · intro holds
        rcases holds with ⟨-, noVariable, -⟩ | ⟨setting', same, unset, evaluates⟩
        · exact absurd ⟨setting, rfl⟩ noVariable
        · cases List.append_cancel_left same
          exact Or.inr ⟨_, _, rfl, unset, inner.2 evaluates⟩
    · rw [piece]
      constructor
      · intro holds
        rcases holds with same | ⟨_, _, same, -⟩
        · cases same
          exact Or.inl ⟨noTime, noVariable, rfl⟩
        · cases same
      · intro holds
        rcases holds with ⟨-, -, rfl⟩ | ⟨setting, same, -⟩
        · exact Or.inl rfl
        · exact absurd ⟨setting, same.symm⟩ noVariable
termination_by rest.length
decreasing_by all_goals omega

/-- A text is closed if filling in its parts does not come to a marker that is not closed. -/
theorem closed_iff (surroundings : Surroundings) (whole rest : List Char) :
    Closed rest ↔ ∀ text, ¬Reaches surroundings (pieces whole rest) (.unclosed text) := by
  have noLiteral (text literal : List Char) : Piece.unclosed text ≠ .literal literal := nofun
  rcases pieces_cases whole rest with ⟨noMarker, parts⟩ | ⟨before, inner, rfl, literal, unclosed, parts⟩
    | ⟨before, body, after, first, parts⟩
  · rw [parts, ← List.append_nil (literal rest)]
    refine ⟨fun _ text reaches => ?_, fun _ => .literal noMarker⟩
    exact not_reaches_nil _ ((reaches_literal_iff (noLiteral text)).1 reaches)
  · constructor
    · intro closed
      cases closed with
      | literal noMarker => cases noMarker.symm.trans (hasMarker_append before inner)
      | placeholder first => exact absurd first (not_first_of_unclosed literal unclosed)
    · intro absent
      refine absurd ?_ (absent whole)
      rw [parts, reaches_literal_iff (noLiteral whole)]
      exact .here List.mem_cons_self
  · have shorter := first.length_lt
    rw [closed_iff_of_first first, closed_iff surroundings whole after]
    refine forall_congr' fun text => not_congr ?_
    rw [parts, reaches_literal_iff (noLiteral text), reaches_cons_iff]
    refine ⟨fun reaches => Or.inr (Or.inr reaches), ?_⟩
    intro holds
    rcases holds with same | ⟨name, inner, same, -, reaches⟩ | reaches
    · rcases pieceOf_cases body with ⟨_, -, piece⟩ | ⟨_, -, -, piece⟩ | ⟨-, -, piece⟩
      · cases same.trans piece
      · cases same.trans piece
      · cases same.trans piece
    · rcases pieceOf_cases body with ⟨_, -, piece⟩ | ⟨setting, rfl, -, piece⟩ | ⟨-, -, piece⟩
      · cases same.symm.trans piece
      · have less := length_variableFallback setting
        cases same.symm.trans piece
        -- a fallback is closed, as its placeholder is
        exact absurd reaches ((closed_iff surroundings _ _).1 (closed_fallback first.balanced) text)
      · cases same.symm.trans piece
    · exact reaches
termination_by rest.length
decreasing_by all_goals omega

/-! ## What a text needs to expand -/

theorem filled_parse_iff {text out : List Char} :
    Filled surroundings value (parse text) out ↔ Expands surroundings value text out :=
  filled_pieces_iff text text out

theorem Expands.mono {value' : KeyPath → List Char → Prop} {text out : List Char}
    (agree : ∀ path part, value path part → value' path part)
    (expands : Expands surroundings value text out) : Expands surroundings value' text out :=
  filled_parse_iff.1 (Filled.mono agree (parse text) (filled_parse_iff.2 expands))

theorem Expands.closed {text out : List Char} (expands : Expands surroundings value text out) :
    Closed text := by
  rw [closed_iff surroundings text text]
  intro unclosed reaches
  obtain ⟨_, given⟩ := (filled_parse_iff.2 expands).of_reaches reaches
  cases given

theorem Expands.of_evaluates {text out expression : List Char}
    (expands : Expands surroundings value text out) (evaluates : Evaluates surroundings text expression) :
    ∃ path part, KeyPath.parse (String.ofList expression) = .ok path ∧ value path part := by
  have reaches := (reaches_reference_iff text text expression).2 evaluates
  obtain ⟨part, path, parses, found⟩ := (filled_parse_iff.2 expands).of_reaches reaches
  exact ⟨path, part, parses, found⟩

/-- A text expands to one text under readings that agree on the references that it evaluates. -/
theorem Expands.unique {value' : KeyPath → List Char → Prop} {text out out' : List Char}
    (expands : Expands surroundings value text out) (expands' : Expands surroundings value' text out')
    (agree : ∀ expression path, Evaluates surroundings text expression →
      KeyPath.parse (String.ofList expression) = .ok path →
      ∀ part part', value path part → value' path part' → part = part') : out = out' := by
  refine Filled.unique (parse text) ?_ (filled_parse_iff.2 expands) (filled_parse_iff.2 expands')
  intro expression path reaches
  exact agree expression path ((reaches_reference_iff text text expression).1 reaches)

end LayeredConfig.Interpolation
