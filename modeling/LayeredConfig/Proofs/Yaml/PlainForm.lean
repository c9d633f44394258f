import LayeredConfig.Proofs.Yaml.Cursor
import LayeredConfig.Yaml.Token.Plain

/-!
# Reading the plain form

A text of plain characters that neither begins nor ends with a space is read as it stands, word by word
(`Plain.scan_isPlain`), up to the colon of a key (`Plain.ends_key`) or up to the end of its line (`Plain.ends_line`). In
flow context it may hold none of the characters that end a run there (`Plain.Avoids`).
-/

namespace LayeredConfig.Yaml

/-- Whether a character may stand anywhere inside a plain scalar. -/
def isPlainChar (c : Char) : Bool :=
  (c == ' ' || !isBlankOrEnd c) && c != ':' && c != '#' && isSteady c

/-- A text that is read as one plain scalar: plain characters, with no space at either end. -/
structure IsPlain (text : List Char) : Prop where
  chars : ∀ c ∈ text, isPlainChar c = true
  nonempty : text ≠ []
  begins : text.head? ≠ some ' '
  ends : text.getLast? ≠ some ' '

theorem isSteady_of_isPlainChar {c : Char} (plain : isPlainChar c = true) : isSteady c = true := by
  simp only [isPlainChar, Bool.and_eq_true] at plain
  exact plain.2

theorem ne_hash_of_isPlainChar {c : Char} (plain : isPlainChar c = true) : (c == '#') = false := by
  simp only [isPlainChar, Bool.and_eq_true, bne_iff_ne] at plain
  exact beq_eq_false_iff_ne.2 plain.1.2

/-- Plain characters with no space among them. -/
structure IsWord (word : List Char) : Prop where
  chars : ∀ c ∈ word, isPlainChar c = true
  solid : ∀ c ∈ word, c ≠ ' '
  nonempty : word ≠ []

namespace IsWord

variable {word : List Char}

theorem isEmpty (isWord : IsWord word) : word.isEmpty = false :=
  List.isEmpty_eq_false_iff.2 isWord.nonempty

theorem all_isSteady (isWord : IsWord word) : word.all isSteady = true :=
  List.all_eq_true.2 fun c member => isSteady_of_isPlainChar (isWord.chars c member)

theorem peek (isWord : IsWord word) {cur : Cursor} {rest : List Char} (h : cur.rest = word ++ rest) :
    (cur.peek == '#') = false := by
  cases word with
  | nil => exact absurd rfl isWord.nonempty
  | cons c word =>
    rw [Cursor.peek_of_rest h]
    exact ne_hash_of_isPlainChar (isWord.chars c List.mem_cons_self)

end IsWord

namespace Plain

variable {inFlow : Bool} {cur : Cursor} {rest : List Char}

/-- No character of a text ends a run in flow context, if that is the context. -/
def Avoids (inFlow : Bool) (text : List Char) : Prop :=
  ∀ c ∈ text, (inFlow && isFlowIndicator c) = false

theorem avoids_false (text : List Char) : Avoids false text :=
  fun _ _ => rfl

/-- Whether a run of a plain scalar stops before a text. -/
def stops : List Char → Bool
  | [] => true
  | c :: rest => isBlankOrEnd c || (c == ':' && isBlankOrEnd (rest.headD endMark))

theorem run_append {word : List Char} (chars : ∀ c ∈ word, isPlainChar c = true)
    (solid : ∀ c ∈ word, c ≠ ' ') (avoids : Avoids inFlow word) (stop : stops rest = true) :
    run inFlow (word ++ rest) = word := by
  induction word with
  | nil =>
    cases rest with
    | nil => rfl
    | cons c rest =>
      simp only [stops, Bool.or_eq_true, Bool.and_eq_true] at stop
      rw [List.nil_append, run]
      rcases stop with blank | ⟨colon, blank⟩
      · simp [blank]
      · have ends : endsAfterColon inFlow (rest.headD endMark) = true := by
          simp only [endsAfterColon, blank, Bool.true_or]
        simp only [colon, ends, Bool.true_and, Bool.or_true, Bool.true_or, if_true]
  | cons c word ih =>
    have plain := chars c (by simp)
    have space := solid c (by simp)
    simp only [isPlainChar, Bool.and_eq_true, Bool.or_eq_true, bne_iff_ne, beq_iff_eq, space,
      false_or, Bool.not_eq_true'] at plain
    rw [List.cons_append, run]
    simp only [plain.1.1.1, beq_eq_false_iff_ne.2 plain.1.1.2, avoids c List.mem_cons_self, Bool.false_and,
      Bool.or_self, Bool.false_eq_true, if_false]
    rw [ih (fun d member => chars d (by simp [member])) (fun d member => solid d (by simp [member]))
      fun d member => avoids d (List.mem_cons_of_mem _ member)]

/-- What ends a plain scalar at a place: the gap there adds nothing, or leads to a column before the least
one, which counts outside of flow context, or to a place where no run begins. -/
structure Ends (inFlow : Bool) (indent : Nat) (place : Cursor) (crosses : Bool) (after : Cursor) : Prop where
  crosses : (gap place).crossesLine = crosses
  cursor : (gap place).cursor = after
  closed : (gap place).text = [] ∨ (!inFlow && decide (after.column < indent)) = true ∨ run inFlow after.rest = []

theorem gap_inside {count : Nat} {c : Char} {more : List Char} (plain : isPlainChar c = true)
    (solid : c ≠ ' ') (h : cur.rest = List.replicate count ' ' ++ c :: more) :
    gap cur = ⟨List.replicate count ' ', false, cur.along count (c :: more)⟩ := by
  have taken := Cursor.takeWhile_append (p := (· == ' ')) (List.replicate count ' ')
    (by simp) (by simp [solid]) (by simp [isSteady_space]) h
  rw [List.length_replicate] at taken
  have noBreak : isBreak c = false := isBreak_of_isSteady (isSteady_of_isPlainChar plain)
  unfold gap
  rw [taken]
  simp [Cursor.peek, noBreak]

/-- The first word of a plain text is not empty, and what follows its spaces is plain again. -/
theorem isPlain_more {word more : List Char} {count : Nat}
    (plain : IsPlain (word ++ (List.replicate count ' ' ++ more)))
    (gapped : more ≠ [] → 0 < count) (begins : more.head? ≠ some ' ') :
    word ≠ [] ∧ (more = [] → count = 0) ∧ (more ≠ [] → IsPlain more) := by
  refine ⟨?_, ?_, ?_⟩
  · intro same
    subst same
    have first := plain.begins
    cases count with
    | zero =>
      have none : more = [] :=
        Decidable.byContradiction fun some => absurd (gapped some) (Nat.lt_irrefl 0)
      exact plain.nonempty (by simp [none])
    | succ count => exact first rfl
  · intro same
    subst same
    cases count with
    | zero => rfl
    | succ count =>
      have last := plain.ends
      rw [List.append_nil, List.replicate_succ', ← List.append_assoc, List.getLast?_concat] at last
      exact absurd rfl last
  · intro some
    refine ⟨fun c member => plain.chars c (by simp [member]), some, begins, ?_⟩
    have last := plain.ends
    rw [List.getLast?_append, List.getLast?_append, List.getLast?_eq_some_getLast some] at last
    rw [List.getLast?_eq_some_getLast some]
    exact last

/-- The last word of a text is read up to what ends the text. -/
theorem scanFrom_lastWord {indent fuel : Nat} {crossed crosses : Bool} {word : List Char} {after : Cursor}
    (isWord : IsWord word) (avoids : Avoids inFlow word) (stop : stops rest = true) (h : cur.rest = word ++ rest)
    (ends : Ends inFlow indent (cur.along word.length rest) crosses after) :
    scanFrom inFlow indent (fuel + 1) crossed cur = ⟨word, crosses, after⟩ := by
  have first := run_append isWord.chars isWord.solid avoids stop
  rw [scanFrom]
  simp only [h, first, isWord.peek h, isWord.isEmpty, Bool.or_self, Bool.false_eq_true, if_false,
    Cursor.skip_append isWord.all_isSteady h, ends.crosses, ends.cursor]
  split
  · rfl
  · next goesOn =>
    -- a run could still follow, but none begins there
    have closed : run inFlow after.rest = [] := by
      simp only [Bool.or_eq_true, not_or, List.isEmpty_iff] at goesOn
      rcases ends.closed with empty | shallow | closed
      · exact absurd empty goesOn.1.1
      · exact absurd shallow goesOn.2
      · exact closed
    have nothing : scanFrom inFlow indent fuel crosses after = ⟨[], crosses, after⟩ := by
      cases fuel with
      | zero => rfl
      | succ fuel =>
        rw [scanFrom]
        simp [closed]
    simp [nothing]

/-- A word with spaces behind it is read before what is found behind the spaces. -/
theorem scanFrom_word {indent fuel count : Nat} {crossed crosses : Bool} {word found more : List Char} {c : Char}
    {after : Cursor} (isWord : IsWord word) (avoids : Avoids inFlow word) (positive : 0 < count)
    (plainChar : isPlainChar c = true) (noSpace : c ≠ ' ')
    (h : cur.rest = word ++ (List.replicate count ' ' ++ c :: more)) (deep : indent ≤ cur.column + 1)
    (behind : scanFrom inFlow indent fuel false (cur.along (word.length + count) (c :: more))
      = ⟨found, crosses, after⟩) (some : found ≠ []) :
    scanFrom inFlow indent (fuel + 1) crossed cur
      = ⟨word ++ (List.replicate count ' ' ++ found), crosses, after⟩ := by
  have long := List.length_pos_iff.2 isWord.nonempty
  have stop : stops (List.replicate count ' ' ++ c :: more) = true := by
    cases count with
    | zero => exact absurd positive (Nat.lt_irrefl 0)
    | succ count => rfl
  have spaces : (List.replicate count ' ').isEmpty = false := by
    cases count with
    | zero => exact absurd positive (Nat.lt_irrefl 0)
    | succ count => rfl
  have first := run_append isWord.chars isWord.solid avoids stop
  have inner : gap (cur.along word.length (List.replicate count ' ' ++ c :: more))
      = ⟨List.replicate count ' ', false,
        (cur.along word.length (List.replicate count ' ' ++ c :: more)).along count (c :: more)⟩ :=
    gap_inside plainChar noSpace rfl
  have deeper : decide (cur.column + (word.length + count) < indent) = false := by
    rw [decide_eq_false_iff_not]
    omega
  have peek : (cur.along (word.length + count) (c :: more)).peek = c := rfl
  rw [scanFrom]
  simp only [h, first, isWord.peek h, isWord.isEmpty, Bool.or_self, Bool.false_eq_true, if_false,
    Cursor.skip_append isWord.all_isSteady h, inner, spaces, Cursor.along_along, peek,
    ne_hash_of_isPlainChar plainChar, Cursor.along_column, deeper, behind, Bool.and_false,
    List.isEmpty_eq_false_iff.2 some, List.append_assoc]

/-- A plain text is read as it stands up to what ends it. -/
theorem scanFrom_isPlain {indent fuel : Nat} {crossed crosses : Bool} {text : List Char}
    {after : Cursor} (plain : IsPlain text) (avoids : Avoids inFlow text) (enough : text.length < fuel)
    (stop : stops rest = true) (h : cur.rest = text ++ rest) (deep : indent ≤ cur.column + 1)
    (ends : Ends inFlow indent (cur.along text.length rest) crosses after) :
    scanFrom inFlow indent fuel crossed cur = ⟨text, crosses, after⟩ := by
  -- each step reads the first word and the spaces behind it
  induction fuel generalizing text cur crossed with
  | zero => exact absurd enough (Nat.not_lt_zero _)
  | succ fuel ih =>
    obtain ⟨word, count, more, rfl, solid, gapped, begins⟩ := exists_split_at_spaces text
    obtain ⟨some, single, plainMore⟩ := isPlain_more plain gapped begins
    have isWord : IsWord word := ⟨fun c member => plain.chars c (by simp [member]), solid, some⟩
    have avoidsWord : Avoids inFlow word := fun c member => avoids c (List.mem_append_left _ member)
    cases more with
    | nil =>
      rw [single rfl] at h ends ⊢
      simp only [List.replicate_zero, List.append_nil] at h ends ⊢
      exact scanFrom_lastWord isWord avoidsWord stop h ends
    | cons c more =>
      have plainChar := plain.chars c (by simp)
      have noSpace : c ≠ ' ' := fun space => begins (by rw [space]; rfl)
      have split : cur.rest = word ++ (List.replicate count ' ' ++ c :: (more ++ rest)) := by
        rw [h]
        simp
      have place : (cur.along (word.length + count) (c :: (more ++ rest))).along
          (c :: more).length rest
          = cur.along (word ++ (List.replicate count ' ' ++ c :: more)).length rest := by
        simp only [Cursor.along_along, List.length_append, List.length_replicate, Nat.add_assoc]
      have shorter : (c :: more).length < fuel := by
        have long := List.length_pos_iff.2 some
        simp only [List.length_append] at enough
        omega
      have further : indent ≤ (cur.along (word.length + count) (c :: (more ++ rest))).column + 1 := by
        rw [Cursor.along_column]
        omega
      have avoidsMore : Avoids inFlow (c :: more) := fun d member =>
        avoids d (List.mem_append_right _ (List.mem_append_right _ member))
      have behind : scanFrom inFlow indent fuel false
          (cur.along (word.length + count) (c :: (more ++ rest))) = ⟨c :: more, crosses, after⟩ := by
        refine ih (plainMore (List.cons_ne_nil _ _)) avoidsMore shorter rfl further ?_
        rw [place]
        exact ends
      exact scanFrom_word isWord avoidsWord (gapped (List.cons_ne_nil _ _)) plainChar noSpace split deep behind
        (List.cons_ne_nil _ _)

/-! ## Ends -/

/-- The colon of a key ends a plain scalar and is not touched. -/
theorem ends_key {place : Cursor} {indent : Nat} (h : place.rest = ':' :: rest) :
    Ends inFlow indent place false place := by
  have taken := Cursor.takeWhile_append (p := (· == ' ')) [] rfl rfl rfl h
  have stay : place.along 0 (':' :: rest) = place := Cursor.along_zero h
  have found : gap place = ⟨[], false, place⟩ := by
    unfold gap
    rw [taken, List.length_nil, stay]
    have peek := Cursor.peek_of_rest h
    simp [peek, show isBreak ':' = false from by decide]
  exact ⟨by rw [found], by rw [found], Or.inl (by rw [found])⟩

theorem breaksFrom_spaces {count fuel : Nat} (h : cur.rest = List.replicate count ' ' ++ rest)
    (enough : count ≤ fuel) (other : rest.head?.all (fun c => c != ' ' && !isBreak c) = true) :
    breaksFrom fuel cur = (some [], cur.along count rest) := by
  induction count generalizing cur fuel with
  | zero =>
    have stay : cur.along 0 rest = cur := Cursor.along_zero h
    rw [stay]
    cases fuel with
    | zero => rfl
    | succ fuel =>
      have peek : (cur.peek == ' ') = false ∧ isBreak cur.peek = false := by
        cases rest with
        | nil => simp [Cursor.peek, h, endMark, isBreak]
        | cons c rest =>
          simp only [List.head?_cons, Option.all_some, Bool.and_eq_true, bne_iff_ne,
            Bool.not_eq_true'] at other
          rw [Cursor.peek_of_rest h]
          exact ⟨beq_eq_false_iff_ne.2 other.1, other.2⟩
      rw [breaksFrom]
      simp [peek.1, peek.2]
  | succ count ih =>
    cases fuel with
    | zero => exact absurd enough (Nat.not_succ_le_zero _)
    | succ fuel =>
      rw [List.replicate_succ, List.cons_append] at h
      have peek := Cursor.peek_of_rest h
      have step := Cursor.next_of_isSteady h isSteady_space
      rw [breaksFrom, peek, if_pos (beq_self_eq_true ' '), step, ih rfl (Nat.le_of_succ_le_succ enough),
        Cursor.along_along, Nat.add_comm]

/-- The end of a line ends a plain scalar if the next line is less deep, or if there is none. -/
theorem ends_line {place : Cursor} {indent count : Nat}
    (h : place.rest = '\n' :: (List.replicate count ' ' ++ rest))
    (other : rest.head?.all (fun c => c != ' ' && !isBreak c) = true)
    (shallow : count < indent ∨ rest = []) :
    Ends false indent place true ⟨rest, place.index + 1 + count, place.line + 1, count⟩ := by
  let below : Cursor := ⟨List.replicate count ' ' ++ rest, place.index + 1, place.line + 1, 0⟩
  have taken := Cursor.takeWhile_append (p := (· == ' ')) [] rfl rfl rfl h
  have stay : place.along 0 ('\n' :: (List.replicate count ' ' ++ rest)) = place :=
    Cursor.along_zero h
  have lineBreak := Cursor.takeBreak_of_lineFeed h
  have peek := Cursor.peek_of_rest h
  have feed : isBreak '\n' = true := by decide
  cases marker : below.atMarker with
  | true =>
    -- a document marker stands at the margin
    have margin : count = 0 := by
      cases count with
      | zero => rfl
      | succ count => cases marker
    subst margin
    have found : gap place = ⟨[], true, below⟩ := by
      unfold gap
      rw [taken, List.length_nil, stay]
      simp only [peek, feed, if_true, lineBreak]
      exact if_pos marker
    exact ⟨by rw [found], by rw [found]; rfl, Or.inl (by rw [found])⟩
  | false =>
    have spaces : breaksFrom (List.replicate count ' ' ++ rest).length below = (some [], below.along count rest) :=
      breaksFrom_spaces rfl (by simp) other
    have found : gap place = ⟨[' '], true, ⟨rest, place.index + 1 + count, place.line + 1, count⟩⟩ := by
      unfold gap
      rw [taken, List.length_nil, stay]
      simp only [peek, feed, if_true, lineBreak]
      rw [if_neg (by rw [marker]; exact Bool.false_ne_true)]
      simp only [below] at spaces
      simp only [spaces]
      simp [Cursor.along]
    refine ⟨by rw [found], by rw [found], Or.inr ?_⟩
    rcases shallow with shallow | none
    · exact Or.inl (decide_eq_true shallow)
    · exact Or.inr (by rw [none]; rfl)

/-- A plain text is read as it stands up to what ends it. -/
theorem scan_isPlain {indent : Nat} {crosses : Bool} {text : List Char} {after : Cursor}
    (plain : IsPlain text) (avoids : Avoids inFlow text) (stop : stops rest = true) (h : cur.rest = text ++ rest)
    (deep : indent ≤ cur.column + 1)
    (ends : Ends inFlow indent (cur.along text.length rest) crosses after) :
    scan inFlow indent cur = ⟨text, crosses, after⟩ := by
  refine scanFrom_isPlain plain avoids ?_ stop h deep ends
  rw [h, List.length_append]
  omega

end Plain

end LayeredConfig.Yaml
