import LayeredConfig.Yaml.Cursor

/-!
# Moving a cursor

What stands ahead after a move is what is left of the text (`Cursor.rest_skip`). A run of characters without line breaks
and byte order marks moves a cursor by its length and leaves it on its line. `Cursor.along` is that move; the lemmas say
which operations make it.
-/

namespace LayeredConfig.Yaml

/-- Whether a character keeps a cursor on its line and takes a column. -/
def isSteady (c : Char) : Bool :=
  !isBreak c && c != '\ufeff'

theorem isBreak_of_isSteady {c : Char} (h : isSteady c = true) : isBreak c = false := by
  simp only [isSteady, Bool.and_eq_true, Bool.not_eq_true'] at h
  exact h.1

theorem isSteady_space : isSteady ' ' = true := by decide

/-- A space is the only steady inset that needs no escape. -/
theorem isBlankOrEnd_eq (c : Char) :
    isBlankOrEnd c = (c == '\t' || c == ' ' || isBreak c || c == endMark) := by
  simp [isBlankOrEnd, isSpaceOrEnd, isBreakOrEnd, Bool.or_assoc]

/-- A text is a part without spaces, a run of spaces and a rest that begins with none. -/
theorem exists_split_at_spaces (text : List Char) :
    ∃ part count more, text = part ++ (List.replicate count ' ' ++ more) ∧
      (∀ c ∈ part, c ≠ ' ') ∧ (more ≠ [] → 0 < count) ∧ more.head? ≠ some ' ' := by
  have outer : text.takeWhile (· != ' ') ++ text.dropWhile (· != ' ') = text :=
    List.takeWhile_append_dropWhile
  have starts : (text.dropWhile (· != ' ')).head?.all (· == ' ') = true := by
    cases found : (text.dropWhile (· != ' ')).head? with
    | none => rfl
    | some c =>
      have stopped := List.head?_dropWhile_not (· != ' ') text
      rw [found] at stopped
      simpa using stopped
  generalize text.dropWhile (· != ' ') = after at outer starts
  have inner : after.takeWhile (· == ' ') ++ after.dropWhile (· == ' ') = after :=
    List.takeWhile_append_dropWhile
  have spaces : after.takeWhile (· == ' ')
      = List.replicate (after.takeWhile (· == ' ')).length ' ' :=
    List.eq_replicate_of_mem fun c member => by
      simpa using List.all_eq_true.1 (List.all_takeWhile (l := after) (p := (· == ' '))) c member
  refine ⟨text.takeWhile (· != ' '), (after.takeWhile (· == ' ')).length,
    after.dropWhile (· == ' '), ?_, ?_, ?_, ?_⟩
  · rw [← spaces, inner, outer]
  · intro c member
    simpa using List.all_eq_true.1 (List.all_takeWhile (l := text) (p := (· != ' '))) c member
  · intro some
    cases after with
    | nil => exact absurd rfl some
    | cons c rest =>
      have space : (c == ' ') = true := by simpa using starts
      simp [space]
  · intro space
    have stopped := List.head?_dropWhile_not (· == ' ') after
    rw [space] at stopped
    simp at stopped

namespace Cursor

theorem rest_next (c : Cursor) : c.next.rest = c.rest.tail := by
  unfold next
  split
  · next same => rw [same, List.tail_nil]
  · next same =>
    rw [same, List.tail_cons]
    repeat' split
    all_goals rfl

theorem rest_skip (n : Nat) (c : Cursor) : (c.skip n).rest = c.rest.drop n := by
  induction n generalizing c with
  | zero => rfl
  | succ n ih => rw [skip, ih, rest_next, List.drop_tail]

theorem next_skip (n : Nat) (c : Cursor) : (c.skip n).next = c.skip (n + 1) := by
  induction n generalizing c with
  | zero => rfl
  | succ n ih => exact ih c.next

theorem rest_dropWhile (p : Char → Bool) (c : Cursor) : (c.dropWhile p).rest = c.rest.dropWhile p := by
  show (c.skip (c.rest.takeWhile p).length).rest = _
  rw [rest_skip]
  calc c.rest.drop (c.rest.takeWhile p).length
      = (c.rest.takeWhile p ++ c.rest.dropWhile p).drop (c.rest.takeWhile p).length := by
        rw [List.takeWhile_append_dropWhile]
    _ = c.rest.dropWhile p := List.drop_left

/-- The place after `count` characters of a line, before `rest`. -/
def along (c : Cursor) (count : Nat) (rest : List Char) : Cursor :=
  ⟨rest, c.index + count, c.line, c.column + count⟩

@[simp] theorem along_rest (c : Cursor) (count : Nat) (rest : List Char) :
    (c.along count rest).rest = rest := rfl

@[simp] theorem along_line (c : Cursor) (count : Nat) (rest : List Char) :
    (c.along count rest).line = c.line := rfl

@[simp] theorem along_index (c : Cursor) (count : Nat) (rest : List Char) :
    (c.along count rest).index = c.index + count := rfl

@[simp] theorem along_column (c : Cursor) (count : Nat) (rest : List Char) :
    (c.along count rest).column = c.column + count := rfl

@[simp] theorem along_along (c : Cursor) (m n : Nat) (before rest : List Char) :
    (c.along m before).along n rest = c.along (m + n) rest := by
  simp [along, Nat.add_assoc]

theorem along_zero {c : Cursor} {rest : List Char} (h : c.rest = rest) : c.along 0 rest = c := by
  subst h
  rfl

theorem peek_of_rest {c : Cursor} {ch : Char} {rest : List Char} (h : c.rest = ch :: rest) :
    c.peek = ch := by
  simp [peek, h]

theorem peekAt_one_of_rest {c : Cursor} {ch : Char} {rest : List Char} (h : c.rest = ch :: rest) :
    c.peekAt 1 = rest.headD endMark := by
  simp only [peekAt, h]
  cases rest <;> rfl

theorem next_of_isSteady {c : Cursor} {ch : Char} {rest : List Char} (h : c.rest = ch :: rest)
    (steady : isSteady ch = true) : c.next = c.along 1 rest := by
  simp only [isSteady, Bool.and_eq_true, Bool.not_eq_true', bne_iff_ne] at steady
  unfold next
  rw [h]
  simp [steady.1, steady.2, along]

/-- The place after a line feed. -/
theorem next_of_lineFeed {c : Cursor} {rest : List Char} (h : c.rest = '\n' :: rest) :
    c.next = ⟨rest, c.index + 1, c.line + 1, 0⟩ := by
  unfold next
  rw [h]
  rfl

theorem takeBreak_of_lineFeed {c : Cursor} {rest : List Char} (h : c.rest = '\n' :: rest) :
    c.takeBreak = (['\n'], ⟨rest, c.index + 1, c.line + 1, 0⟩) := by
  have next := next_of_lineFeed h
  unfold takeBreak
  rw [h]
  simp [next]

theorem skip_append {run rest : List Char} (steady : run.all isSteady = true) {c : Cursor}
    (h : c.rest = run ++ rest) : c.skip run.length = c.along run.length rest := by
  induction run generalizing c with
  | nil => exact (along_zero h).symm
  | cons ch run ih =>
    rw [List.all_cons, Bool.and_eq_true] at steady
    have step : c.next = c.along 1 (run ++ rest) := next_of_isSteady h steady.1
    rw [List.length_cons, skip, step, ih steady.2 rfl, along_along, Nat.add_comm]

theorem takeWhile_append {p : Char → Bool} {rest : List Char} (run : List Char) (all : run.all p = true)
    (ends : rest.head?.all (fun ch => !p ch) = true) (steady : run.all isSteady = true)
    {c : Cursor} (h : c.rest = run ++ rest) : c.takeWhile p = (run, c.along run.length rest) := by
  have front : c.rest.takeWhile p = run := by
    rw [h, List.takeWhile_append_of_pos (List.all_eq_true.1 all)]
    cases rest with
    | nil => simp
    | cons ch more =>
      have other : p ch = false := by simpa using ends
      simp [other]
  unfold takeWhile
  simp only [front, skip_append steady h]

theorem dropWhile_append {p : Char → Bool} {rest : List Char} (run : List Char) (all : run.all p = true)
    (ends : rest.head?.all (fun ch => !p ch) = true) (steady : run.all isSteady = true)
    {c : Cursor} (h : c.rest = run ++ rest) : c.dropWhile p = c.along run.length rest := by
  unfold dropWhile
  rw [takeWhile_append run all ends steady h]

end Cursor

end LayeredConfig.Yaml
