import LayeredConfig.KeyPath.Parse
import LayeredConfig.Proofs.Interpolation.Variables
import LayeredConfig.Surroundings
import LayeredConfig.Time.Pattern

/-!
# Placeholders of a text

What a text with placeholders means, said of the text itself: `Balanced` bodies, the `FirstPlaceholder` of a text,
texts that are `Closed`, the references that a text `Evaluates`, and the text that it `Expands` to. References are
read through a parameter, so the same rule serves a tree on the way and the tree at the end.

`closed_fallback` is the one fact that is not read off: a fallback lies inside a balanced body, and what is left of a
balanced text when its front is cut off, at any place outside a marker, still closes all its markers.
-/

namespace LayeredConfig.Interpolation

open Template

/-- A text in which every marker is closed by a brace of its own, and every brace closes a marker. -/
inductive Balanced : List Char → Prop
  | nil : Balanced []
  | char {c : Char} {rest : List Char} (brace : c ≠ '\x7d')
      (marker : ¬(c = '$' ∧ rest.head? = some '\x7b')) (balanced : Balanced rest) : Balanced (c :: rest)
  | marker {body rest : List Char} (inner : Balanced body) (balanced : Balanced rest) :
      Balanced ('$' :: '\x7b' :: (body ++ '\x7d' :: rest))

/-- The first placeholder of a text: what stands before it, its body, and what stands behind it. -/
structure FirstPlaceholder (text before body after : List Char) : Prop where
  text : text = before ++ '$' :: '\x7b' :: (body ++ '\x7d' :: after)
  literal : hasMarker before = false
  balanced : Balanced body

/-- A text in which every marker outside of placeholders begins one. -/
inductive Closed : List Char → Prop
  | literal {text : List Char} (literal : hasMarker text = false) : Closed text
  | placeholder {text before body after : List Char} (first : FirstPlaceholder text before body after)
      (rest : Closed after) : Closed text

/-- The references that a text evaluates: its placeholders that are neither times nor variables, and those of the
fallbacks of its variables that are not set or set to the empty text. -/
inductive Evaluates (surroundings : Surroundings) : List Char → List Char → Prop
  | here {text before body after : List Char} (first : FirstPlaceholder text before body after)
      (noTime : ¬nowMark <+: body) (noVariable : ¬variableMark <+: body) :
      Evaluates surroundings text body
  | later {text before body after expression : List Char}
      (first : FirstPlaceholder text before body after)
      (rest : Evaluates surroundings after expression) : Evaluates surroundings text expression
  | fallback {text before setting after fallback expression : List Char} {name : String}
      (first : FirstPlaceholder text before (variableMark ++ setting) after)
      (sets : IsSetting setting name fallback)
      (unset : ∀ value, surroundings.environment.lookup name = some value → value = "")
      (inner : Evaluates surroundings fallback expression) : Evaluates surroundings text expression

mutual

/-- The text that a text expands to: its literal parts, and what its placeholders stand for. A reference to a path
stands for a text if `value` holds of them. -/
inductive Expands (surroundings : Surroundings) (value : KeyPath → List Char → Prop) :
    List Char → List Char → Prop
  | literal {text : List Char} (literal : hasMarker text = false) : Expands surroundings value text text
  | placeholder {text before body after shown more : List Char}
      (first : FirstPlaceholder text before body after)
      (part : StandsFor surroundings value body shown) (rest : Expands surroundings value after more) :
      Expands surroundings value text (before ++ (shown ++ more))

/-- The text that a placeholder with a body stands for: the time, the text of a variable that is set to one that is not
empty, what its fallback expands to if it is not set or set to the empty text, or what stands at a path. -/
inductive StandsFor (surroundings : Surroundings) (value : KeyPath → List Char → Prop) :
    List Char → List Char → Prop
  | now (pattern : List Char) :
      StandsFor surroundings value (nowMark ++ pattern) (surroundings.now.write pattern)
  | environment {setting fallback : List Char} {name text : String} (sets : IsSetting setting name fallback)
      (set : surroundings.environment.lookup name = some text) (filled : text ≠ "") :
      StandsFor surroundings value (variableMark ++ setting) text.toList
  | fallback {setting fallback text : List Char} {name : String} (sets : IsSetting setting name fallback)
      (unset : ∀ value, surroundings.environment.lookup name = some value → value = "")
      (inner : Expands surroundings value fallback text) :
      StandsFor surroundings value (variableMark ++ setting) text
  | reference {body text : List Char} {path : KeyPath} (noTime : ¬nowMark <+: body)
      (noVariable : ¬variableMark <+: body) (parses : KeyPath.parse (String.ofList body) = .ok path)
      (found : value path text) : StandsFor surroundings value body text

end

/-! ## Markers -/

theorem hasMarker_cons_of_not {c : Char} {rest : List Char} (h : ¬(c = '$' ∧ rest.head? = some '\x7b')) :
    hasMarker (c :: rest) = hasMarker rest := by
  rw [hasMarker]
  intro tail dollar same
  subst same
  exact h ⟨dollar, rfl⟩

theorem splitMarker_cons_of_not {c : Char} {rest : List Char}
    (h : ¬(c = '$' ∧ rest.head? = some '\x7b')) :
    splitMarker (c :: rest) = (c :: (splitMarker rest).1, (splitMarker rest).2) := by
  rw [splitMarker]
  intro tail dollar same
  subst same
  exact h ⟨dollar, rfl⟩

/-- What stands before the first marker has none, and a text without a marker is all that. -/
theorem splitMarker_spec (text : List Char) :
    match splitMarker text with
    | (before, none) => before = text ∧ hasMarker text = false
    | (before, some inner) => text = before ++ '$' :: '\x7b' :: inner ∧ hasMarker before = false := by
  induction text with
  | nil => exact ⟨rfl, rfl⟩
  | cons c rest ih =>
    by_cases begins : c = '$' ∧ rest.head? = some '\x7b'
    · obtain ⟨rfl, head⟩ := begins
      cases rest with
      | nil => cases head
      | cons d rest =>
        cases head
        exact ⟨rfl, rfl⟩
    · rw [splitMarker_cons_of_not begins]
      cases split : splitMarker rest with
      | mk before after =>
        rw [split] at ih
        cases after with
        | none =>
          obtain ⟨same, literal⟩ := ih
          exact ⟨congrArg (c :: ·) same, (hasMarker_cons_of_not begins).trans literal⟩
        | some inner =>
          obtain ⟨same, literal⟩ := ih
          refine ⟨congrArg (c :: ·) same, ?_⟩
          refine (hasMarker_cons_of_not fun ⟨dollar, head⟩ => begins ⟨dollar, ?_⟩).trans literal
          cases before with
          | nil => cases head
          | cons d before =>
            rw [same]
            exact head

/-! ## Closing braces -/

theorem splitClose_cons_of_not {c : Char} {rest : List Char} (depth : Nat) (brace : c ≠ '\x7d')
    (marker : ¬(c = '$' ∧ rest.head? = some '\x7b')) :
    splitClose depth (c :: rest)
      = (splitClose depth rest).map fun (body, after) => (c :: body, after) := by
  rw [splitClose]
  · intro tail dollar same
    subst same
    exact marker ⟨dollar, rfl⟩
  · exact brace

/-- A balanced text is passed over on the way to the closing brace. -/
theorem splitClose_append {body : List Char} (balanced : Balanced body) {rest : List Char}
    (noBrace : rest.head? ≠ some '\x7b') (depth : Nat) :
    splitClose depth (body ++ rest)
      = (splitClose depth rest).map fun (inner, after) => (body ++ inner, after) := by
  induction balanced generalizing rest depth with
  | nil => simp
  | char brace marker balanced ih =>
    rename_i c body
    have noMarker : ¬(c = '$' ∧ (body ++ rest).head? = some '\x7b') := by
      intro holds
      rcases holds with ⟨dollar, head⟩
      cases body with
      | nil => exact noBrace head
      | cons d body => exact marker ⟨dollar, head⟩
    rw [List.cons_append, splitClose_cons_of_not depth brace noMarker, ih noBrace, Option.map_map]
    rfl
  | marker inner balanced ihInner ih =>
    rename_i body after
    have opened : splitClose depth (('$' :: '\x7b' :: (body ++ '\x7d' :: after)) ++ rest)
        = (splitClose (depth + 1) (body ++ '\x7d' :: (after ++ rest))).map fun (inner, after) =>
          ('$' :: '\x7b' :: inner, after) := by
      simp only [List.cons_append, List.append_assoc, splitClose]
    have closed : splitClose (depth + 1) ('\x7d' :: (after ++ rest))
        = (splitClose depth (after ++ rest)).map fun (inner, after) => ('\x7d' :: inner, after) := by
      simp only [splitClose]
    rw [opened, ihInner (by simp), closed, ih noBrace, Option.map_map, Option.map_map, Option.map_map]
    congr 1
    funext found
    simp

/-- What closes `depth` levels: balanced texts with a brace behind each but the last. -/
inductive Closes : Nat → List Char → Prop
  | last {body : List Char} (balanced : Balanced body) : Closes 0 body
  | outward {depth : Nat} {body rest : List Char} (balanced : Balanced body) (outer : Closes depth rest) :
      Closes (depth + 1) (body ++ '\x7d' :: rest)

theorem Closes.char {depth : Nat} {c : Char} {rest : List Char} (brace : c ≠ '\x7d')
    (marker : ¬(c = '$' ∧ rest.head? = some '\x7b')) (closes : Closes depth rest) :
    Closes depth (c :: rest) := by
  cases closes with
  | last balanced => exact .last (.char brace marker balanced)
  | outward balanced outer =>
    rename_i body after
    rw [← List.cons_append]
    refine Closes.outward (.char brace ?_ balanced) outer
    intro holds
    rcases holds with ⟨dollar, head⟩
    cases body with
    | nil => cases head
    | cons d body => exact marker ⟨dollar, head⟩

theorem Closes.marker {depth : Nat} {body rest : List Char} (balanced : Balanced body)
    (closes : Closes depth rest) : Closes depth ('$' :: '\x7b' :: (body ++ '\x7d' :: rest)) := by
  cases closes with
  | last outer => exact .last (.marker balanced outer)
  | outward next outer =>
    have whole := Closes.outward (.marker balanced next) outer
    simpa using whole

/-- The closing brace that is found is preceded by what closes the levels within. -/
theorem closes_of_splitClose {depth : Nat} {text body after : List Char}
    (h : splitClose depth text = some (body, after)) :
    text = body ++ '\x7d' :: after ∧ Closes depth body := by
  fun_induction splitClose depth text generalizing body with
  | case1 => cases h
  | case2 depth rest ih =>
    obtain ⟨⟨inner, _⟩, found, same⟩ := Option.map_eq_some_iff.1 h
    cases same
    obtain ⟨rfl, closes⟩ := ih found
    refine ⟨rfl, ?_⟩
    cases closes with
    | outward balanced outer => exact Closes.marker balanced outer
  | case3 rest =>
    cases h
    exact ⟨rfl, .last .nil⟩
  | case4 rest depth ih =>
    obtain ⟨⟨inner, _⟩, found, same⟩ := Option.map_eq_some_iff.1 h
    cases same
    obtain ⟨rfl, closes⟩ := ih found
    exact ⟨rfl, .outward .nil closes⟩
  | case5 depth c rest marker brace ih =>
    obtain ⟨⟨inner, _⟩, found, same⟩ := Option.map_eq_some_iff.1 h
    cases same
    obtain ⟨rfl, closes⟩ := ih found
    refine ⟨rfl, Closes.char brace ?_ closes⟩
    intro holds
    rcases holds with ⟨dollar, head⟩
    cases inner with
    | nil => cases head
    | cons d inner =>
      cases head
      exact marker _ dollar rfl

theorem splitClose_eq_some_iff {text body after : List Char} :
    splitClose 0 text = some (body, after) ↔ text = body ++ '\x7d' :: after ∧ Balanced body := by
  constructor
  · intro found
    obtain ⟨same, closes⟩ := closes_of_splitClose found
    cases closes with
    | last balanced => exact ⟨same, balanced⟩
  · intro holds
    rcases holds with ⟨rfl, balanced⟩
    rw [splitClose_append balanced (by simp)]
    simp [splitClose]

/-! ## Fallbacks are closed -/

theorem FirstPlaceholder.char {c : Char} {text before body after : List Char}
    (marker : ¬(c = '$' ∧ text.head? = some '\x7b')) (first : FirstPlaceholder text before body after) :
    FirstPlaceholder (c :: text) (c :: before) body after := by
  obtain ⟨rfl, literal, balanced⟩ := first
  refine ⟨rfl, (hasMarker_cons_of_not ?_).trans literal, balanced⟩
  intro holds
  rcases holds with ⟨dollar, head⟩
  cases before with
  | nil => cases head
  | cons d before => exact marker ⟨dollar, head⟩

theorem Closed.char {c : Char} {text : List Char} (marker : ¬(c = '$' ∧ text.head? = some '\x7b'))
    (closed : Closed text) : Closed (c :: text) := by
  cases closed with
  | literal literal => exact .literal ((hasMarker_cons_of_not marker).trans literal)
  | placeholder first rest => exact .placeholder (first.char marker) rest

theorem closed_literal_append {text rest : List Char} (literal : hasMarker text = false)
    (noBrace : rest.head? ≠ some '\x7b') (closed : Closed rest) : Closed (text ++ rest) := by
  induction text with
  | nil => exact closed
  | cons c text ih =>
    have marker : ¬(c = '$' ∧ text.head? = some '\x7b') := by
      intro holds
      rcases holds with ⟨rfl, head⟩
      cases text with
      | nil => cases head
      | cons d text =>
        cases head
        cases literal
    rw [hasMarker_cons_of_not marker] at literal
    refine Closed.char ?_ (ih literal)
    intro holds
    rcases holds with ⟨dollar, head⟩
    cases text with
    | nil => exact noBrace head
    | cons d text => exact marker ⟨dollar, head⟩

theorem Closed.append {text rest : List Char} (closed : Closed text)
    (noBrace : rest.head? ≠ some '\x7b') (more : Closed rest) : Closed (text ++ rest) := by
  induction closed with
  | literal literal => exact closed_literal_append literal noBrace more
  | placeholder first _ ih =>
    refine .placeholder ⟨?_, first.literal, first.balanced⟩ ih
    rw [first.text]
    simp

/-- What is left of a balanced text when its front is cut off is closed. -/
theorem Balanced.closed_of_append {text : List Char} (balanced : Balanced text) {front back : List Char}
    (split : text = front ++ back) : Closed back := by
  induction balanced generalizing front back with
  | nil =>
    obtain ⟨-, rfl⟩ := List.append_eq_nil_iff.1 split.symm
    exact .literal rfl
  | char brace marker balanced ih =>
    cases front with
    | nil =>
      rw [List.nil_append] at split
      rw [← split]
      exact .char marker (ih (List.nil_append _).symm)
    | cons d front =>
      cases split
      exact ih rfl
  | marker inner balanced ihInner ih =>
    rename_i body after
    have closedAfter : Closed ('\x7d' :: after) :=
      .char (fun same => absurd same.1 (by decide)) (ih (List.nil_append after).symm)
    have noBrace : ('\x7d' :: after).head? ≠ some '\x7b' := by simp
    rcases front with _ | ⟨d, _ | ⟨e, front⟩⟩
    · rw [List.nil_append] at split
      rw [← split]
      exact .placeholder ⟨List.nil_append _ |>.symm, rfl, inner⟩ (ih (List.nil_append after).symm)
    · cases split
      refine .char (fun same => absurd same.1 (by decide)) ?_
      exact Closed.append (ihInner (List.nil_append body).symm) noBrace closedAfter
    · simp only [List.cons_append, List.cons.injEq] at split
      obtain ⟨-, -, split⟩ := split
      rcases List.append_eq_append_iff.1 split with ⟨middle, rfl, tail⟩ | ⟨middle, rfl, rfl⟩
      · cases middle with
        | nil =>
          rw [List.nil_append] at tail
          rw [← tail]
          exact closedAfter
        | cons f middle =>
          cases tail
          exact ih rfl
      · exact Closed.append (ihInner rfl) noBrace closedAfter

theorem hasMarker_of_append {text rest : List Char} (h : hasMarker (text ++ rest) = false) :
    hasMarker text = false := by
  induction text with
  | nil => rfl
  | cons c text ih =>
    have marker : ¬(c = '$' ∧ (text ++ rest).head? = some '\x7b') := by
      intro holds
      rcases holds with ⟨rfl, head⟩
      cases whole : text ++ rest with
      | nil =>
        rw [whole] at head
        cases head
      | cons d more =>
        rw [whole] at head
        cases head
        rw [List.cons_append, whole] at h
        cases h
    rw [List.cons_append, hasMarker_cons_of_not marker] at h
    rw [hasMarker_cons_of_not, ih h]
    intro holds
    rcases holds with ⟨dollar, head⟩
    cases text with
    | nil => cases head
    | cons d text => exact marker ⟨dollar, head⟩

/-- What is left of a closed text when characters other than braces are cut off its end is closed. -/
theorem Closed.of_append {text back front : List Char} (closed : Closed text)
    (split : text = front ++ back) (noBrace : '\x7d' ∉ back) : Closed front := by
  induction closed generalizing front with
  | literal literal =>
    rw [split] at literal
    exact .literal (hasMarker_of_append literal)
  | placeholder first rest ih =>
    rename_i text before body after
    have whole : front ++ back = (before ++ '$' :: '\x7b' :: body) ++ '\x7d' :: after := by
      rw [← split, first.text]
      simp
    rcases List.append_eq_append_iff.1 whole with ⟨middle, -, same⟩ | ⟨middle, same, tail⟩
    · exact absurd (by rw [same]; simp) noBrace
    · cases middle with
      | nil =>
        rw [List.nil_append] at tail
        exact absurd (by rw [← tail]; simp) noBrace
      | cons c middle =>
        rw [List.cons_append, List.cons.injEq] at tail
        obtain ⟨rfl, tail⟩ := tail
        refine .placeholder ⟨?_, first.literal, first.balanced⟩ (ih tail)
        rw [same]
        simp

/-- The fallback of a variable in a balanced body is closed. -/
theorem closed_fallback {setting : List Char} (balanced : Balanced (variableMark ++ setting)) :
    Closed (variableFallback setting) := by
  obtain ⟨front, back, same, blank⟩ := (isSetting setting).exists_fallback
  have split : variableMark ++ setting = (variableMark ++ front) ++ (variableFallback setting ++ back) := by
    rw [List.append_assoc, ← same]
  have noBrace : '\x7d' ∉ back := fun member => absurd (blank _ member) (by decide)
  exact (balanced.closed_of_append split).of_append rfl noBrace

end LayeredConfig.Interpolation
