import LayeredConfig.File.Store
import LayeredConfig.Proofs.Yaml.RoundTrip

/-!
# Line ends of a canonical text

The lines of a canonical text end with line feeds and hold no line end themselves, so that the text of a file that such
a text was written to is that text: `text?_of_write`.
-/

namespace LayeredConfig

namespace Yaml

theorem Written.all_isSteady {written : Written} (sound : written.IsSound) : written.chars.all isSteady = true := by
  rcases written with ⟨text, quoted⟩
  cases quoted with
  | true =>
    have body : (text.flatMap escapeChar).all isSteady = true := by
      rw [List.all_flatMap]
      exact List.all_eq_true.2 fun c _ => all_isSteady_escapeChar c
    have mark : isSteady '"' = true := by decide
    simp [Written.chars, quote, body, mark]
  | false =>
    obtain ⟨plain, -⟩ := sound.resolve_left Bool.false_ne_true
    exact List.all_eq_true.2 fun c member => isSteady_of_isPlainChar (plain.chars c member)

theorem Cell.all_isSteady {cell : Cell} (sound : cell.IsSound) : cell.chars.all isSteady = true := by
  cases cell with
  | scalar written => exact Written.all_isSteady sound
  | emptySequence | emptyMapping => decide

theorem Lead.all_isSteady {lead : Lead} (sound : lead.IsSound) : lead.chars.all isSteady = true := by
  cases lead with
  | item => decide
  | entry key =>
    have colon : [':'].all isSteady = true := by decide
    rw [Lead.chars, List.all_append, Written.all_isSteady sound.1, colon]
    rfl

theorem Row.all_isSteady {row : Row} (lead : row.lead.IsSound) (cell : ∀ cell, row.cell = some cell → cell.IsSound) :
    row.line.all isSteady = true := by
  have spaces : (List.replicate row.indent ' ').all isSteady = true :=
    List.all_eq_true.2 fun c member => (List.eq_of_mem_replicate member) ▸ isSteady_space
  have tail : (Row.tail row.cell).all isSteady = true := by
    cases found : row.cell with
    | none => rfl
    | some content =>
      rw [Row.tail, List.all_cons, isSteady_space, Cell.all_isSteady (cell content found)]
      rfl
  rw [Row.line, Row.content, List.all_append, List.all_append, spaces, Lead.all_isSteady lead, tail]
  rfl

/-- No line of sound rows holds a carriage return. -/
theorem no_return_rowsText {rows : List Row} (sound : RowsSound rows) : '\r' ∉ rowsText rows := by
  induction rows with
  | nil => exact List.not_mem_nil
  | cons row rows ih =>
    obtain ⟨lead, cell, sound⟩ := sound
    intro member
    rw [rowsText, List.flatMap_cons, List.append_assoc, List.mem_append, List.mem_append] at member
    have line := List.all_eq_true.1 (Row.all_isSteady lead fun content found => (cell content found).1) '\r'
    rcases member with inside | lineEnd | below
    · exact absurd (line inside) (by decide)
    · exact absurd lineEnd (by decide)
    · exact ih sound below

theorem no_return_orderedText {tree : Tree} (writable : tree.IsWritable) : '\r' ∉ orderedText tree := by
  unfold orderedText
  split
  · next cell found =>
    intro member
    rcases List.mem_append.1 member with inside | lineEnd
    · have steady := List.all_eq_true.1 (Cell.all_isSteady (isSound_cell? writable found).1) '\r' inside
      exact absurd steady (by decide)
    · exact absurd lineEnd (by decide)
  · have noRows : RowsSound [] := trivial
    have sound := rowsSound_childRows (Nat.le_refl 0) noRows tree writable
    rw [List.append_nil] at sound
    exact no_return_rowsText sound

/-- The text that a writable tree has is the text of its ordered form, too. -/
theorem write_ordered {tree : Tree} (writable : tree.IsWritable) : write tree.ordered = write tree := by
  rw [write_eq writable, write_eq (Tree.isWritable_ordered tree writable), Tree.ordered_ordered]

end Yaml

namespace File

theorem foldReturns_of_no_return {text : List Char} (free : '\r' ∉ text) : Text.foldReturns text = text := by
  induction text with
  | nil => rfl
  | cons c rest ih =>
    obtain ⟨other, free⟩ := List.ne_and_not_mem_of_not_mem_cons free
    rw [Text.foldReturns, beq_eq_false_iff_ne.2 other.symm, ih free]
    · rfl
    · rintro _ rfl _
      exact other rfl

theorem fromUTF8?_toUTF8 (text : String) : String.fromUTF8? text.toUTF8 = some text := by
  rw [String.fromUTF8?, String.toUTF8_eq_toByteArray]
  exact dif_pos text.isValidUTF8

/-- A text without carriage returns is read back from the content that holds it. -/
theorem text?_contentOf {text : List Char} (free : '\r' ∉ text) : text? (contentOf text) = some text := by
  rw [text?, contentOf, fromUTF8?_toUTF8, Option.map_some, String.toList_ofList, foldReturns_of_no_return free]

/-- The canonical text of a tree is read back from the file that holds it. -/
theorem text?_of_write {tree : Tree} {text : List Char} (writable : tree.IsWritable)
    (writes : Yaml.write tree = .ok text) : text? (contentOf text) = some text := by
  rw [Yaml.write_eq writable] at writes
  cases writes
  exact text?_contentOf (Yaml.no_return_orderedText (Tree.isWritable_ordered tree writable))

end File

end LayeredConfig
