import LayeredConfig.Proofs.Interpolation.Parts

/-!
# Cutting a text at its placeholders

What reading a template does to the text, said of the text as a row of characters: it is cut into literals and bodies
that make up the text again (`Cut`), unless it has a marker that is not closed. The depth of markers in a body is
counted from its start (`depthFrom`). `Closed` texts are those that can be cut (`closed_iff_exists_cut`), and
`pieces_cases_cut` says of every text what its parts are.

A part that is not closed is the whole text (`unclosed_mem_parse`), and the fallback of a variable is closed wherever
its placeholder stands (`Fallback.closed`).
-/

namespace LayeredConfig.Interpolation

open Relation Template

/-! ## Depths -/

/-- The beginning of a placeholder. -/
def marker : List Char := ['$', '\x7b']

/-- The depth of markers at the end of a text, counted from a depth at its start. Each marker goes a level down and each
brace a level up, and there is no depth behind a brace that closes nothing. -/
def depthFrom : Nat → List Char → Option Nat
  | depth, [] => some depth
  | depth, '$' :: '\x7b' :: rest => depthFrom (depth + 1) rest
  | 0, '\x7d' :: _ => none
  | depth + 1, '\x7d' :: rest => depthFrom depth rest
  | depth, _ :: rest => depthFrom depth rest

theorem depthFrom_cons_of_not {c : Char} {rest : List Char} (depth : Nat) (brace : c ≠ '\x7d')
    (noMarker : ¬(c = '$' ∧ rest.head? = some '\x7b')) : depthFrom depth (c :: rest) = depthFrom depth rest := by
  rw [depthFrom]
  · intro tail dollar same
    subst same
    exact noMarker ⟨dollar, rfl⟩
  · exact fun _ => brace
  · exact fun _ _ => brace

/-- A balanced text leaves the depth as it is. -/
theorem depthFrom_append {body : List Char} (balanced : Balanced body) {rest : List Char}
    (noBrace : rest.head? ≠ some '\x7b') (depth : Nat) : depthFrom depth (body ++ rest) = depthFrom depth rest := by
  induction balanced generalizing rest depth with
  | nil => rfl
  | @char c body brace noMarker balanced ih =>
    rw [List.cons_append, depthFrom_cons_of_not depth brace, ih noBrace]
    rintro ⟨dollar, head⟩
    cases body with
    | nil => exact noBrace head
    | cons d body => exact noMarker ⟨dollar, head⟩
  | @marker body after inner balanced ihInner ih =>
    have opened : depthFrom depth ('$' :: '\x7b' :: (body ++ '\x7d' :: (after ++ rest)))
        = depthFrom (depth + 1) (body ++ '\x7d' :: (after ++ rest)) := by rw [depthFrom]
    have closed : depthFrom (depth + 1) ('\x7d' :: (after ++ rest)) = depthFrom depth (after ++ rest) := by
      rw [depthFrom]
    have whole : ('$' :: '\x7b' :: (body ++ '\x7d' :: after)) ++ rest
        = '$' :: '\x7b' :: (body ++ '\x7d' :: (after ++ rest)) := by simp
    rw [whole, opened, ihInner (by simp), closed, ih noBrace]

/-- A text that leads up to the start from some depth closes that many levels. -/
theorem closes_of_depthFrom {depth : Nat} {text : List Char} (ends : depthFrom depth text = some 0) :
    Closes depth text := by
  fun_induction depthFrom depth text with
  | case1 depth =>
    cases ends
    exact .last .nil
  | case2 depth rest ih =>
    cases ih ends with
    | outward balanced outer => exact Closes.marker balanced outer
  | case3 => cases ends
  | case4 depth rest ih => exact .outward .nil (ih ends)
  | case5 depth c rest noMarker noClose noBrace ih =>
    have brace : c ≠ '\x7d' := by
      rintro rfl
      cases depth with
      | zero => exact noClose rfl rfl
      | succ depth => exact noBrace depth rfl rfl
    refine Closes.char brace ?_ (ih ends)
    rintro ⟨dollar, head⟩
    cases rest with
    | nil => cases head
    | cons d rest =>
      cases head
      exact noMarker _ dollar rfl

theorem balanced_iff_depthFrom {text : List Char} : Balanced text ↔ depthFrom 0 text = some 0 := by
  constructor
  · intro balanced
    have noBrace : ([] : List Char).head? ≠ some '\x7b' := nofun
    have same := depthFrom_append balanced noBrace 0
    rwa [List.append_nil] at same
  · intro ends
    cases closes_of_depthFrom ends with
    | last balanced => exact balanced

/-! ## Cuts -/

theorem hasMarker_eq_false_iff {text : List Char} : hasMarker text = false ↔ ¬marker <:+: text := by
  constructor
  · rintro literal ⟨before, inner, rfl⟩
    rw [List.append_assoc] at literal
    cases literal.symm.trans (hasMarker_append before inner)
  · intro absent
    have spec := splitMarker_spec text
    cases split : splitMarker text with
    | mk before after =>
      rw [split] at spec
      cases after with
      | none => exact spec.2
      | some inner => exact absurd ⟨before, inner, by simp [spec.1, marker]⟩ absent

/-- A text cut at its placeholders: each literal with the body of the placeholder behind it, and the last literal. -/
structure Cut where
  parts : List (List Char × List Char)
  last : List Char

namespace Cut

/-- The text that is cut. -/
def text (cut : Cut) : List Char :=
  cut.parts.flatMap (fun (literal, body) => literal ++ (marker ++ (body ++ ['\x7d']))) ++ cut.last

/-- The parts of a template that is cut so. -/
def template (cut : Cut) : Template :=
  cut.parts.flatMap (fun (before, body) => literal before ++ [pieceOf body]) ++ literal cut.last

/-- No literal has a marker, and in each body the depth is never below zero, and zero at the end. -/
structure IsSound (cut : Cut) : Prop where
  literals : ∀ literal body, (literal, body) ∈ cut.parts → ¬marker <:+: literal
  bodies : ∀ literal body, (literal, body) ∈ cut.parts → depthFrom 0 body = some 0
  last : ¬marker <:+: cut.last

variable {before body last text inner : List Char} {parts : List (List Char × List Char)} {cut other : Cut}

theorem text_cons : (Cut.mk ((before, body) :: parts) last).text
    = before ++ '$' :: '\x7b' :: (body ++ '\x7d' :: (Cut.mk parts last).text) := by
  simp [Cut.text, marker]

theorem template_cons : (Cut.mk ((before, body) :: parts) last).template
    = literal before ++ pieceOf body :: (Cut.mk parts last).template := by
  simp [template]

theorem isSound_nil (noMarker : hasMarker last = false) : (Cut.mk [] last).IsSound :=
  ⟨nofun, nofun, hasMarker_eq_false_iff.1 noMarker⟩

theorem isSound_cons_iff : (Cut.mk ((before, body) :: parts) last).IsSound
    ↔ hasMarker before = false ∧ Balanced body ∧ (Cut.mk parts last).IsSound := by
  constructor
  · rintro ⟨literals, bodies, last⟩
    refine ⟨hasMarker_eq_false_iff.2 (literals _ _ List.mem_cons_self),
      balanced_iff_depthFrom.2 (bodies _ _ List.mem_cons_self), fun _ _ member => ?_, fun _ _ member => ?_, last⟩
    · exact literals _ _ (List.mem_cons_of_mem _ member)
    · exact bodies _ _ (List.mem_cons_of_mem _ member)
  · rintro ⟨noMarker, balanced, literals, bodies, last⟩
    refine ⟨fun _ _ member => ?_, fun _ _ member => ?_, last⟩
    · rcases List.mem_cons.1 member with same | member
      · cases same
        exact hasMarker_eq_false_iff.1 noMarker
      · exact literals _ _ member
    · rcases List.mem_cons.1 member with same | member
      · cases same
        exact balanced_iff_depthFrom.1 balanced
      · exact bodies _ _ member

theorem firstPlaceholder_text (sound : (Cut.mk ((before, body) :: parts) last).IsSound) :
    FirstPlaceholder (Cut.mk ((before, body) :: parts) last).text before body (Cut.mk parts last).text := by
  obtain ⟨noMarker, balanced, -⟩ := isSound_cons_iff.1 sound
  exact ⟨text_cons, noMarker, balanced⟩

/-- The parts of a text that is cut are those of the cut. -/
theorem pieces_text (sound : cut.IsSound) (whole : List Char) : pieces whole cut.text = cut.template := by
  obtain ⟨parts, last⟩ := cut
  induction parts with
  | nil => exact pieces_of_literal whole (hasMarker_eq_false_iff.2 sound.last)
  | cons part parts ih =>
    rw [pieces_of_first whole (firstPlaceholder_text sound), ih (isSound_cons_iff.1 sound).2.2, template_cons]

theorem closed_text (sound : cut.IsSound) : Closed cut.text := by
  obtain ⟨parts, last⟩ := cut
  induction parts with
  | nil => exact .literal (hasMarker_eq_false_iff.2 sound.last)
  | cons part parts ih => exact .placeholder (firstPlaceholder_text sound) (ih (isSound_cons_iff.1 sound).2.2)

/-- A text is cut in one way. -/
theorem IsSound.unique (sound : cut.IsSound) (sound' : other.IsSound) (same : cut.text = other.text) : cut = other := by
  obtain ⟨parts, last⟩ := cut
  obtain ⟨parts', last'⟩ := other
  induction parts generalizing parts' with
  | nil =>
    cases parts' with
    | nil => simpa [Cut.text] using same
    | cons part parts' =>
      have marked := (firstPlaceholder_text sound').hasMarker
      rw [← same] at marked
      cases marked.symm.trans (hasMarker_eq_false_iff.2 sound.last)
  | cons part parts ih =>
    have first := firstPlaceholder_text sound
    cases parts' with
    | nil =>
      have marked := first.hasMarker
      rw [same] at marked
      cases marked.symm.trans (hasMarker_eq_false_iff.2 sound'.last)
    | cons part' parts' =>
      obtain ⟨before, body⟩ := part
      obtain ⟨before', body'⟩ := part'
      rw [same] at first
      obtain ⟨rfl, rfl, after⟩ := first.unique (firstPlaceholder_text sound')
      cases ih (isSound_cons_iff.1 sound).2.2 parts' (isSound_cons_iff.1 sound').2.2 after
      rfl

theorem mem_template {piece : Piece} (member : piece ∈ cut.template) :
    (∃ text, piece = .literal text) ∨ ∃ before body, (before, body) ∈ cut.parts ∧ piece = pieceOf body := by
  have ofLiteral {text : List Char} (member : piece ∈ literal text) : ∃ text, piece = .literal text := by
    unfold literal at member
    split at member
    · cases member
    · exact ⟨text, List.mem_singleton.1 member⟩
  rcases List.mem_append.1 member with inParts | inLast
  · obtain ⟨⟨before, body⟩, part, member⟩ := List.mem_flatMap.1 inParts
    rcases List.mem_append.1 member with inLiteral | same
    · exact .inl (ofLiteral inLiteral)
    · exact .inr ⟨before, body, part, List.mem_singleton.1 same⟩
  · exact .inl (ofLiteral inLast)

end Cut

/-- A text in which nothing closes a marker before it. -/
def Unclosed (inner : List Char) : Prop :=
  ∀ body after, inner = body ++ '\x7d' :: after → depthFrom 0 body ≠ some 0

theorem unclosed_of_splitClose {inner : List Char} (open' : splitClose 0 inner = none) : Unclosed inner := by
  intro body after same ends
  rw [splitClose_eq_some_iff.2 ⟨same, balanced_iff_depthFrom.2 ends⟩] at open'
  cases open'

/-- A text is cut, and its parts are those of the cut, or it is cut up to a marker that nothing closes, and the last
part says so of the whole text. -/
theorem pieces_cases_cut (whole rest : List Char) :
    (∃ cut : Cut, cut.IsSound ∧ cut.text = rest ∧ pieces whole rest = cut.template)
      ∨ ∃ (cut : Cut) (inner : List Char), cut.IsSound ∧ rest = cut.text ++ (marker ++ inner) ∧ Unclosed inner
        ∧ pieces whole rest = cut.template ++ [.unclosed whole] ∧ ¬Closed rest := by
  rcases pieces_cases whole rest with ⟨noMarker, parts⟩ | ⟨before, inner, rfl, noMarker, open', parts⟩
    | ⟨before, body, after, first, parts⟩
  · exact .inl ⟨⟨[], rest⟩, Cut.isSound_nil noMarker, rfl, parts⟩
  · refine .inr ⟨⟨[], before⟩, inner, Cut.isSound_nil noMarker, rfl, unclosed_of_splitClose open', parts, ?_⟩
    intro closed
    cases closed with
    | literal literal => cases literal.symm.trans (hasMarker_append before inner)
    | placeholder first => exact not_first_of_unclosed noMarker open' first
  · have shorter := first.length_lt
    rcases pieces_cases_cut whole after with ⟨cut, sound, rfl, same⟩
      | ⟨cut, inner, sound, rfl, unclosed, same, open'⟩
    · refine .inl ⟨⟨(before, body) :: cut.parts, cut.last⟩, ?_, ?_, ?_⟩
      · exact Cut.isSound_cons_iff.2 ⟨first.literal, first.balanced, sound⟩
      · rw [Cut.text_cons, first.text]
      · rw [parts, same, Cut.template_cons]
    · refine .inr ⟨⟨(before, body) :: cut.parts, cut.last⟩, inner, ?_, ?_, unclosed, ?_, ?_⟩
      · exact Cut.isSound_cons_iff.2 ⟨first.literal, first.balanced, sound⟩
      · rw [Cut.text_cons, first.text]
        simp
      · rw [parts, same, Cut.template_cons]
        simp
      · exact fun closed => open' ((closed_iff_of_first first).1 closed)
termination_by rest.length
decreasing_by omega

/-- The texts that can be cut are the closed ones. -/
theorem closed_iff_exists_cut {text : List Char} : Closed text ↔ ∃ cut : Cut, cut.IsSound ∧ cut.text = text := by
  constructor
  · intro closed
    rcases pieces_cases_cut text text with ⟨cut, sound, same, -⟩ | ⟨_, _, _, _, _, _, open'⟩
    · exact ⟨cut, sound, same⟩
    · exact absurd closed open'
  · rintro ⟨cut, sound, rfl⟩
    exact cut.closed_text sound

/-! ## Parts of a text -/

theorem ne_unclosed_pieceOf (body whole : List Char) : pieceOf body ≠ .unclosed whole := by
  intro same
  rcases pieceOf_cases body with ⟨_, -, piece⟩ | ⟨_, -, -, piece⟩ | ⟨-, -, piece⟩
  all_goals cases piece.symm.trans same

/-- A text has a part that is not closed when it is not closed itself, and that part is the whole text. -/
theorem unclosed_mem_parse {text whole : List Char} :
    .unclosed whole ∈ parse text ↔ whole = text ∧ ¬Closed text := by
  have apart {cut : Cut} (member : Piece.unclosed whole ∈ cut.template) : False := by
    rcases Cut.mem_template member with ⟨_, same⟩ | ⟨_, body, -, same⟩
    · cases same
    · exact ne_unclosed_pieceOf body whole same.symm
  rcases pieces_cases_cut text text with ⟨cut, sound, rfl, parts⟩ | ⟨cut, _, _, _, _, parts, open'⟩
  · rw [parse, parts]
    exact ⟨fun member => (apart member).elim, fun holds => absurd (cut.closed_text sound) holds.2⟩
  · rw [parse, parts, List.mem_append, List.mem_singleton]
    constructor
    · rintro (member | same)
      · exact (apart member).elim
      · cases same
        exact ⟨rfl, open'⟩
    · rintro ⟨rfl, -⟩
      exact .inr rfl

/-- The fallback of a variable among the parts of a text is the text of a setting inside a balanced body. -/
theorem closed_of_variable_mem_parse {text name : List Char} {fallback : Template}
    (member : .variable name fallback ∈ parse text) : ∃ inner, fallback = parse inner ∧ Closed inner := by
  have found {cut : Cut} (sound : cut.IsSound) (member : Piece.variable name fallback ∈ cut.template) :
      ∃ inner, fallback = parse inner ∧ Closed inner := by
    rcases Cut.mem_template member with ⟨_, same⟩ | ⟨literal, body, part, same⟩
    · cases same
    · rcases pieceOf_cases body with ⟨_, -, piece⟩ | ⟨setting, rfl, -, piece⟩ | ⟨-, -, piece⟩
      · cases same.trans piece
      · cases same.trans piece
        exact ⟨_, rfl, closed_fallback (balanced_iff_depthFrom.2 (sound.bodies literal _ part))⟩
      · cases same.trans piece
  rcases pieces_cases_cut text text with ⟨cut, sound, -, parts⟩ | ⟨cut, _, sound, _, _, parts, -⟩
  · rw [parse, parts] at member
    exact found sound member
  · rw [parse, parts, List.mem_append, List.mem_singleton] at member
    rcases member with member | same
    · exact found sound member
    · cases same

/-- A text is the fallback of a variable whose placeholder is found in another, perhaps before an unclosed marker. -/
def Fallback (text inner : List Char) : Prop :=
  ∃ (cut : Cut) (rest literal setting : List Char), cut.IsSound ∧ text = cut.text ++ rest
    ∧ (literal, variableMark ++ setting) ∈ cut.parts ∧ inner = variableFallback setting

theorem Fallback.closed {text inner : List Char} (fallback : Fallback text inner) : Closed inner := by
  obtain ⟨cut, rest, literal, setting, sound, -, part, rfl⟩ := fallback
  exact closed_fallback (balanced_iff_depthFrom.2 (sound.bodies literal _ part))

/-- The variable of the first placeholder has a fallback. -/
theorem FirstPlaceholder.fallback {text before setting after : List Char}
    (first : FirstPlaceholder text before (variableMark ++ setting) after) :
    Fallback text (variableFallback setting) := by
  refine ⟨⟨[(before, variableMark ++ setting)], []⟩, after, before, setting, ?_, ?_, List.mem_singleton.2 rfl, rfl⟩
  · exact Cut.isSound_cons_iff.2 ⟨first.literal, first.balanced, Cut.isSound_nil rfl⟩
  · rw [first.text, Cut.text_cons]
    simp [Cut.text]

end LayeredConfig.Interpolation
