import LayeredConfig.Proofs.Yaml.Lexing

/-!
# Cutting the rows of a text

`Lexer.yieldsRows` says that sound rows are cut into `rowTokens`, by induction on the rows: a row is cut as its lead,
its cell and its end, and each of these leaves a state of which the induction hypothesis speaks. `tokens_rows` and
`tokens_cell` say it of whole texts. A place that is noted for a key at a cell is no longer of use at the end of the
line, so all that is kept of it is that it is loose: no key has to be there.
-/

namespace LayeredConfig.Yaml

/-- The next row begins with something that no move to the next token goes over. -/
theorem startsToken_rowsBody {rows : List Row} (sound : RowsSound rows) :
    startsToken (rowsBody rows) = true := by
  rcases rows with _ | ⟨⟨indent, lead, cell⟩, rows⟩
  · rfl
  · obtain ⟨leadSound, -, -⟩ := sound
    cases lead with
    | item => rfl
    | entry key =>
      obtain ⟨c, more, head, starts⟩ :=
        Written.exists_head leadSound.1 (':' :: (Row.tail cell ++ '\n' :: rowsText rows))
      have same : rowsBody (⟨indent, .entry key, cell⟩ :: rows) = c :: more := by
        rw [← head]
        simp [rowsBody, Row.content, Lead.chars]
      rw [same]
      exact starts

/-- The next row begins neither with a space nor with a break. -/
theorem noBlank_rowsBody {rows : List Row} (sound : RowsSound rows) :
    (rowsBody rows).head?.all (fun c => c != ' ' && !isBreak c) = true := by
  have starts := startsToken_rowsBody sound
  unfold startsToken isSteady at starts
  cases first : (rowsBody rows).head? with
  | none => rfl
  | some c =>
    rw [first] at starts
    simp only [Option.all_some, Bool.and_eq_true] at starts ⊢
    exact ⟨starts.1.1, starts.2.1⟩

namespace Lexer

variable {cur : Cursor} {indents : List Nat} {keys : Bool} {released : Nat} {queue toks : List Token}
  {pending : Option PendingKey} {rows : List Row}

/-- No key has to begin at a place, which lies on a line, if there is one. -/
def IsLoose (pending : Option PendingKey) (line : Nat) : Prop :=
  ∀ key, pending = some key → key.required = false ∧ key.line = line

theorem isLoose_none {line : Nat} : IsLoose none line := by
  intro key same
  cases same

/-- Deeper than the innermost open collection no key has to begin. -/
theorem isLoose_noted (deep : (free cur indents keys released queue).leastIndent ≤ cur.column) :
    IsLoose (noted cur indents keys released queue) cur.line := by
  intro key same
  cases keys with
  | false => cases same
  | true =>
    cases same
    refine ⟨?_, rfl⟩
    cases indents with
    | nil => rfl
    | cons innermost outer =>
      have deeper : innermost + 1 ≤ cur.column := deep
      simp only [List.head?_cons, beq_eq_false_iff_ne, ne_eq, Option.some.injEq]
      omega

theorem dropIfStale_of_isLoose {line : Nat} (loose : IsLoose pending line) (after : Cursor) :
    ∃ kept, dropIfStale after pending = .ok kept ∧ IsLoose kept line
      ∧ (after.line ≠ line → kept = none) := by
  cases pending with
  | none => exact ⟨none, rfl, isLoose_none, fun _ => rfl⟩
  | some key =>
    obtain ⟨free, same⟩ := loose key rfl
    cases stale : key.isStale after with
    | true =>
      refine ⟨none, ?_, isLoose_none, fun _ => rfl⟩
      unfold dropIfStale
      simp [stale, free]
    | false =>
      refine ⟨some key, ?_, loose, fun moved => ?_⟩
      · unfold dropIfStale
        simp [stale]
      · unfold PendingKey.isStale at stale
        simp only [Bool.or_eq_false_iff, bne_eq_false_iff_eq] at stale
        exact absurd (stale.1.symm.trans same) moved

/-- The start of rows is cut into these tokens, wherever it stands. -/
def YieldsRows (indents : List Nat) (rows : List Row) (toks : List Token) : Prop :=
  ∀ index line released queue,
    (free ⟨rowsBody rows, index, line, firstIndent rows⟩ indents true released queue).Yields toks

theorem Yields.of_lineEnd (loose : IsLoose pending cur.line) (sound : RowsSound rows)
    (h : cur.rest = '\n' :: rowsText rows) (next : YieldsRows indents rows toks) :
    (held pending cur indents keys released queue).Yields toks := by
  have starts := startsToken_rowsBody sound
  rw [rowsText_eq] at h
  let after : Cursor := ⟨rowsBody rows, cur.index + 1 + firstIndent rows, cur.line + 1, firstIndent rows⟩
  obtain ⟨kept, drops, -, gone⟩ := dropIfStale_of_isLoose loose after
  have none : kept = none := gone (Nat.succ_ne_self _)
  subst none
  have moves : (held pending cur indents keys released queue).toToken.dropStale
      = .ok (free after indents true released queue) := by
    rw [toToken_lineEnd (s := held pending cur indents keys released queue) starts rfl h]
    show (held pending after indents true released queue).dropStale = _
    rw [dropStale_held, drops]
    rfl
  refine Yields.of_toToken moves (stays_free starts) ?_ rfl (next _ _ _ _)
  show (rowsBody rows).length ≤ cur.rest.length
  rw [h, List.length_cons, List.length_append]
  omega

theorem shorter_along {text rest : List Char} (h : cur.rest = text ++ rest) (some : 0 < text.length)
    (place : Cursor) (short : place.rest.length ≤ rest.length) :
    place.rest.length < cur.rest.length := by
  rw [h, List.length_append]
  omega

theorem closeDeeper_of_deep (deep : (free cur indents keys released queue).leastIndent ≤ cur.column) :
    (free cur indents keys released queue).closeDeeper = free cur indents keys released queue := by
  have inside := keptAt_of_head (le_of_leastIndent_le deep)
  rw [closeDeeper_free, inside.1, inside.2, List.append_nil]

/-- A scalar between double quotes at the end of a line is cut as it is read, and what follows is cut as rows. -/
theorem Yields.of_doubleQuoted {quoted word : List Char} (opens : quoted.head? = some '"') (sound : RowsSound rows)
    (h : cur.rest = quoted ++ '\n' :: rowsText rows)
    (scans : FlowScalar.scan true cur = .ok (word, cur.along quoted.length ('\n' :: rowsText rows)))
    (deep : (free cur indents keys released queue).leastIndent ≤ cur.column)
    (next : YieldsRows indents rows toks) :
    (free cur indents keys released queue).Yields ([.scalar word .doubleQuoted] ++ toks) := by
  obtain ⟨inner, rfl⟩ := List.head?_eq_some_iff.1 opens
  have starts : startsToken cur.rest = true := by
    rw [h]
    rfl
  have goesOn : cur.atEnd = false := by
    unfold Cursor.atEnd
    rw [h]
    rfl
  let place := cur.along ('"' :: inner).length ('\n' :: rowsText rows)
  obtain ⟨kept, drops, keptLoose, -⟩ := dropIfStale_of_isLoose (isLoose_noted deep) place
  have cuts : (free cur indents keys released queue).closeDeeper.cut.bind dropStale
      = .ok (held kept place indents false released (queue ++ [.scalar word .doubleQuoted])) := by
    rw [closeDeeper_of_deep deep, cut_doubleQuoted h scans]
    show dropStale _ = _
    rw [dropStale_held, drops]
    rfl
  have positive : 0 < ('"' :: inner).length := Nat.zero_lt_succ _
  refine Yields.of_cut (stays_free starts) goesOn cuts
    (shorter_along h positive place (Nat.le_refl _)) rfl ?_
  exact Yields.of_lineEnd keptLoose sound rfl next

theorem Yields.of_quote {text : List Char} (sound : RowsSound rows)
    (h : cur.rest = quote text ++ '\n' :: rowsText rows)
    (deep : (free cur indents keys released queue).leastIndent ≤ cur.column)
    (next : YieldsRows indents rows toks) :
    (free cur indents keys released queue).Yields ([.scalar text .doubleQuoted] ++ toks) :=
  Yields.of_doubleQuoted rfl sound h (FlowScalar.scan_quote h) deep next

/-- A plain scalar is cut up to the next line that is less deep, or up to the end of the text. -/
theorem cuts_plain {text rest : List Char} {count : Nat} (plain : IsPlain text) (begins : beginsPlain text = true)
    (h : cur.rest = text ++ '\n' :: (List.replicate count ' ' ++ rest))
    (other : rest.head?.all (fun c => c != ' ' && !isBreak c) = true)
    (deep : (free cur indents keys released queue).leastIndent ≤ cur.column)
    (shallow : count < (free cur indents keys released queue).leastIndent ∨ rest = []) :
    (free cur indents keys released queue).closeDeeper.cut.bind dropStale
      = .ok (free ⟨rest, cur.index + text.length + 1 + count, cur.line + 1, count⟩ indents true released
          (queue ++ [.scalar text .plain])) := by
  let place : Cursor := ⟨rest, cur.index + text.length + 1 + count, cur.line + 1, count⟩
  have ends : Plain.Ends false (free cur indents keys released queue).leastIndent
      (cur.along text.length ('\n' :: (List.replicate count ' ' ++ rest))) true place :=
    Plain.ends_line rfl other shallow
  obtain ⟨kept, drops, -, gone⟩ := dropIfStale_of_isLoose (isLoose_noted deep) place
  have none : kept = none := gone (Nat.succ_ne_self _)
  subst none
  rw [closeDeeper_of_deep deep,
    cut_plain plain begins (by simp) (by simp) rfl h (Nat.le_succ_of_le deep) ends]
  show dropStale _ = _
  rw [dropStale_held]
  show (dropIfStale place _).map _ = _
  rw [drops]
  rfl

/-- A plain scalar at the end of a line is cut, and what follows is cut as rows. -/
theorem Yields.of_plain {text : List Char} (isWritten : (Written.mk text false).IsSound) (sound : RowsSound rows)
    (h : cur.rest = text ++ '\n' :: rowsText rows)
    (deep : (free cur indents keys released queue).leastIndent ≤ cur.column)
    (shallow : firstIndent rows < (free cur indents keys released queue).leastIndent ∨ rows = [])
    (next : YieldsRows indents rows toks) :
    (free cur indents keys released queue).Yields ([.scalar text .plain] ++ toks) := by
  obtain ⟨plain, begins⟩ := isWritten.resolve_left Bool.false_ne_true
  obtain ⟨starts, goesOn⟩ := Written.starts isWritten h
  rw [rowsText_eq] at h
  have ended (empty : rows = []) : rowsBody rows = [] := by
    rw [empty]
    rfl
  have cuts := cuts_plain plain begins h (noBlank_rowsBody sound) deep (shallow.imp_right ended)
  have positive := List.length_pos_iff.2 plain.nonempty
  refine Yields.of_cut (stays_free starts) goesOn cuts (shorter_along h positive _ ?_) rfl ?_
  · simp only [free_cursor, List.length_cons, List.length_append]
    omega
  · rw [release_free]
    exact next _ _ _ _

/-- A written scalar at the end of a line is cut, and what follows is cut as rows. -/
theorem Yields.of_written {written : Written} (isWritten : written.IsSound) (sound : RowsSound rows)
    (h : cur.rest = written.chars ++ '\n' :: rowsText rows)
    (deep : (free cur indents keys released queue).leastIndent ≤ cur.column)
    (shallow : firstIndent rows < (free cur indents keys released queue).leastIndent ∨ rows = [])
    (next : YieldsRows indents rows toks) :
    (free cur indents keys released queue).Yields ([written.token] ++ toks) := by
  rcases written with ⟨text, quoted⟩
  cases quoted with
  | true => exact Yields.of_quote sound h deep next
  | false => exact Yields.of_plain isWritten sound h deep shallow next

/-- A state inside a flow collection that began in block context. -/
def inside (outer : Option PendingKey) (cur : Cursor) (indents : List Nat) (released : Nat)
    (queue : List Token) : Lexer :=
  ⟨cur, indents, true, none, [outer], released, queue⟩

theorem cutFlowStart_free {start : Token} :
    (free cur indents keys released queue).cutFlowStart start
      = .ok (inside (noted cur indents keys released queue) cur.next indents released
          (queue ++ [start])) := by
  unfold cutFlowStart
  rw [notePending_free]
  rfl

theorem cutFlowEnd_inside {outer : Option PendingKey} {finish : Token} :
    (inside outer cur indents released queue).cutFlowEnd finish
      = .ok (held outer cur.next indents false released (queue ++ [finish])) :=
  rfl

theorem dropStale_inside {outer : Option PendingKey} (stays : dropIfStale cur outer = .ok outer) :
    (inside outer cur indents released queue).dropStale
      = .ok (inside outer cur indents released queue) := by
  have all : [outer].mapM (dropIfStale cur) = Except.ok [outer] := by
    rw [List.mapM_cons, stays]
    rfl
  unfold dropStale inside
  simp only [all]
  rfl

theorem dropIfStale_noted {after : Cursor} (line : after.line = cur.line)
    (near : after.index ≤ cur.index + keyReach) :
    dropIfStale after (noted cur indents keys released queue)
      = .ok (noted cur indents keys released queue) := by
  cases keys with
  | false => rfl
  | true => exact dropIfStale_near line.symm near

/-- An empty flow collection at the end of a line is cut, and what follows is cut as rows. -/
theorem Yields.of_brackets (opening closing : Char) {start finish : Token}
    (steady : isSteady opening = true ∧ isSteady closing = true)
    (starts : startsToken [opening] = true ∧ startsToken [closing] = true)
    (opens : ∀ s : Lexer, s.cursor.peek = opening → s.cut = s.cutFlowStart start)
    (closes : ∀ s : Lexer, s.cursor.peek = closing → s.cut = s.cutFlowEnd finish)
    (sound : RowsSound rows) (h : cur.rest = opening :: closing :: '\n' :: rowsText rows)
    (deep : (free cur indents keys released queue).leastIndent ≤ cur.column)
    (next : YieldsRows indents rows toks) :
    (free cur indents keys released queue).Yields ([start, finish] ++ toks) := by
  let middle := cur.along 1 (closing :: '\n' :: rowsText rows)
  let place := cur.along 2 ('\n' :: rowsText rows)
  let outer := noted cur indents keys released queue
  have peek : cur.peek = opening := Cursor.peek_of_rest h
  have keptMiddle : dropIfStale middle outer = .ok outer := dropIfStale_noted rfl (by
    show cur.index + 1 ≤ cur.index + 1024
    omega)
  have keptPlace : dropIfStale place outer = .ok outer := dropIfStale_noted rfl (by
    show cur.index + 2 ≤ cur.index + 1024
    omega)
  have headStarts (c : Char) (rest : List Char) (one : startsToken [c] = true) :
      startsToken (c :: rest) = true := one
  have behind (released : Nat) (queue : List Token) :
      (inside outer middle indents released queue).Yields ([finish] ++ toks) := by
    have stays : (inside outer middle indents released queue).toToken.dropStale
        = .ok (inside outer middle indents released queue) := by
      rw [toToken_of_startsToken (headStarts _ _ starts.2)]
      exact dropStale_inside keptMiddle
    have cuts : (inside outer middle indents released queue).closeDeeper.cut.bind dropStale
        = .ok (held outer place indents false released (queue ++ [finish])) := by
      show (inside outer middle indents released queue).cut.bind dropStale = _
      rw [closes _ rfl, cutFlowEnd_inside, Cursor.next_of_isSteady rfl steady.2, Cursor.along_along]
      show dropStale (held outer place indents false released (queue ++ [finish])) = _
      rw [dropStale_held, keptPlace]
      rfl
    refine Yields.of_cut stays rfl cuts (Nat.lt_succ_self _) rfl ?_
    exact Yields.of_lineEnd (isLoose_noted deep) sound rfl next
  have cuts : (free cur indents keys released queue).closeDeeper.cut.bind dropStale
      = .ok (inside outer middle indents released (queue ++ [start])) := by
    rw [closeDeeper_of_deep deep, opens _ peek, cutFlowStart_free, Cursor.next_of_isSteady h steady.1]
    exact dropStale_inside keptMiddle
  have goesOn : cur.atEnd = false := by
    unfold Cursor.atEnd
    rw [h]
    rfl
  have begins : startsToken cur.rest = true := by
    rw [h]
    exact headStarts _ _ starts.1
  show (free cur indents keys released queue).Yields ([start] ++ ([finish] ++ toks))
  exact Yields.of_cut (stays_free begins) goesOn cuts
    (by
      rw [free_cursor, h]
      exact Nat.lt_succ_self _) rfl (behind _ _)

/-- A cell at the end of a line is cut, and what follows is cut as rows. -/
theorem Yields.of_cell {cell : Cell} (isCell : cell.IsSound) (sound : RowsSound rows)
    (h : cur.rest = cell.chars ++ '\n' :: rowsText rows)
    (deep : (free cur indents keys released queue).leastIndent ≤ cur.column)
    (shallow : firstIndent rows < (free cur indents keys released queue).leastIndent ∨ rows = [])
    (next : YieldsRows indents rows toks) :
    (free cur indents keys released queue).Yields (cell.tokens ++ toks) := by
  cases cell with
  | scalar written => exact Yields.of_written isCell sound h deep shallow next
  | emptySequence =>
    refine Yields.of_brackets '[' ']' (by decide) (by decide) ?_ ?_ sound h
      deep next
    all_goals
      intro s peek
      unfold cut
      simp only [peek]
  | emptyMapping =>
    refine Yields.of_brackets '\x7b' '\x7d' (by decide) (by decide) ?_ ?_
      sound h deep next
    all_goals
      intro s peek
      unfold cut
      simp only [peek]

/-- What stands behind a lead is cut, and then the rows below it. -/
theorem Yields.of_tail {row : Row} (sound : RowsSound (row :: rows))
    (h : cur.rest = Row.tail row.cell ++ '\n' :: rowsText rows)
    (innermost : indents.head? = some row.indent) (deep : row.indent < cur.column)
    (next : YieldsRows indents rows toks) :
    (free cur indents keys released queue).Yields (row.cellTokens ++ toks) := by
  obtain ⟨-, cellSound, sound⟩ := sound
  rcases row with ⟨indent, lead, cell⟩
  cases cell with
  | none => exact Yields.of_lineEnd isLoose_none sound h next
  | some cell =>
    obtain ⟨isCell, shallow⟩ := cellSound cell rfl
    have starts : startsToken (cell.chars ++ '\n' :: rowsText rows) = true := by
      cases cell with
      | scalar written =>
        obtain ⟨c, more, head, starts⟩ := Written.exists_head isCell ('\n' :: rowsText rows)
        rw [Cell.chars, head]
        exact starts
      | emptySequence => rfl
      | emptyMapping => rfl
    have least : (free (cur.along 1 (cell.chars ++ '\n' :: rowsText rows)) indents keys released
        queue).leastIndent = indent + 1 := by
      unfold leastIndent
      cases indents with
      | nil => cases innermost
      | cons first outer =>
        cases innermost
        rfl
    have moves : (free cur indents keys released queue).toToken
        = free (cur.along 1 (cell.chars ++ '\n' :: rowsText rows)) indents keys released queue :=
      toToken_spaces (s := free cur indents keys released queue) 1 starts h
    refine Yields.of_toToken (t := free (cur.along 1 (cell.chars ++ '\n' :: rowsText rows)) indents
      keys released queue) (by rw [moves, dropStale_free]) (stays_free starts) ?_ rfl
      (Yields.of_cell isCell sound rfl ?_ ?_ next)
    · rw [free_cursor, free_cursor, h, Cursor.along_rest]
      exact Nat.le_succ _
    · rw [least]
      exact Nat.succ_le_succ (Nat.le_of_lt deep)
    · rw [least]
      exact Or.inl (Nat.lt_succ_of_le shallow)

/-- Sound rows are cut into their tokens. -/
theorem yieldsRows (sound : RowsSound rows) (indents : List Nat) :
    YieldsRows indents rows (rowTokens indents rows) := by
  induction rows generalizing indents with
  | nil =>
    intro index line released queue
    exact Yields.of_end rfl
  | cons row rows ih =>
    intro index line released queue
    have next := ih sound.2.2 (indentsAt indents row.indent)
    have innermost := head_indentsAt indents row.indent
    have blank : isBlankOrEnd ((Row.tail row.cell ++ '\n' :: rowsText rows).headD endMark) = true := by
      cases row.cell <;> rfl
    rcases row with ⟨indent, lead, cell⟩
    have positive := length_lead_pos sound.1
    rw [rowTokens]
    have split : rowsBody (⟨indent, lead, cell⟩ :: rows) = lead.chars ++ (Row.tail cell ++ '\n' :: rowsText rows) := by
      simp [rowsBody, Row.content]
    have given : (free ⟨rowsBody (⟨indent, lead, cell⟩ :: rows), index, line, indent⟩ indents true released
        queue).Yields (leadTokens indents indent lead
          ++ (Row.cellTokens ⟨indent, lead, cell⟩ ++ rowTokens (indentsAt indents indent) rows)) := by
      refine Yields.of_lead sound.1 split blank fun keys released => ?_
      exact Yields.of_tail sound rfl innermost (Nat.lt_add_of_pos_right positive) next
    simpa only [leadTokens, firstIndent, List.append_assoc] using given

end Lexer

/-! ## Whole texts -/

/-- A printable text has the tokens that its first state is cut into. -/
theorem tokens_of_yields {text : List Char} {toks : List Token} (printable : text.all isPrintable = true)
    (h : (Lexer.free (.start text) [] true 0 []).Yields toks) :
    tokens text = (.streamStart :: toks, none) := by
  have cuts : Lexer.run (text.length + 1) { cursor := .start text } = (toks, none) :=
    h (text.length + 1) (Nat.lt_succ_self _)
  unfold tokens
  rw [if_pos printable, cuts]

/-- A text of sound rows is cut into their tokens. -/
theorem tokens_rows {rows : List Row} (sound : RowsSound rows) (margin : firstIndent rows = 0)
    (printable : (rowsText rows).all isPrintable = true) :
    tokens (rowsText rows) = (.streamStart :: rowTokens [] rows, none) := by
  refine tokens_of_yields printable ?_
  have cuts := Lexer.yieldsRows sound [] 0 0 0 []
  have body : rowsBody rows = rowsText rows := by
    rw [rowsText_eq, margin]
    rfl
  rw [margin, body] at cuts
  exact cuts

/-- A line of one cell is cut into its tokens. -/
theorem tokens_cell {cell : Cell} (sound : cell.IsSound)
    (printable : (cell.chars ++ ['\n']).all isPrintable = true) :
    tokens (cell.chars ++ ['\n']) = (.streamStart :: (cell.tokens ++ [.streamEnd]), none) := by
  have noRows : RowsSound [] := trivial
  refine tokens_of_yields printable ?_
  refine Lexer.Yields.of_cell sound noRows rfl (Nat.le_refl 0) (Or.inr rfl) ?_
  exact Lexer.yieldsRows noRows []

end LayeredConfig.Yaml
