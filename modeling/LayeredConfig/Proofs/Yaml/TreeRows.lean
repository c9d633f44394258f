import LayeredConfig.Proofs.Tree.Ordered
import LayeredConfig.Proofs.Yaml.ScalarForm
import LayeredConfig.Yaml.Canonical

/-!
# The rows of a tree

`childRows` are the rows of the children of a node whose entries are in order. `treeLines_eq` says that they are the
lines that `write` puts together, and `rowsSound_childRows` that each is cut into its tokens, which are those of
`blockTokens`: the tokens of a node written row by row.
-/

namespace LayeredConfig

namespace Yaml.Scalar

/-- A key that can be written and read back: its text is within the reach of a key. -/
structure IsWritableKey (key : String) : Prop where
  text : IsWritableText key.toList
  short : ∀ text, writeKey key = .ok text → text.length ≤ keyReach

instance (key : String) : Decidable (IsWritableKey key) :=
  match written : writeKey key with
  | .error _ => decidable_of_iff (IsWritableText key.toList)
      ⟨fun text => ⟨text, fun _ same => by rw [written] at same; cases same⟩, fun key => key.text⟩
  | .ok text => decidable_of_iff (IsWritableText key.toList ∧ text.length ≤ keyReach)
      ⟨fun ⟨writable, short⟩ => ⟨writable, fun _ same => by rw [written] at same; cases same; exact short⟩,
        fun key => ⟨key.text, key.short text written⟩⟩

end Yaml.Scalar

namespace Tree

mutual

/-- A tree whose scalars and keys can all be written and read back. -/
def IsWritable : Tree → Prop
  | .sequence items => ItemsAreWritable items
  | .mapping entries => EntriesAreWritable entries
  | .null => Yaml.Scalar.IsWritable .null
  | .bool value => Yaml.Scalar.IsWritable (.bool value)
  | .int value => Yaml.Scalar.IsWritable (.int value)
  | .double value => Yaml.Scalar.IsWritable (.double value)
  | .string text => Yaml.Scalar.IsWritable (.string text)

/-- Items that can all be written and read back. -/
def ItemsAreWritable : List Tree → Prop
  | [] => True
  | item :: rest => item.IsWritable ∧ ItemsAreWritable rest

/-- Entries whose keys and values can all be written and read back. -/
def EntriesAreWritable : List (String × Tree) → Prop
  | [] => True
  | (key, value) :: rest => Yaml.Scalar.IsWritableKey key ∧ value.IsWritable ∧ EntriesAreWritable rest

end

mutual

/-- Decides whether a tree can be written and read back. -/
def decideIsWritable : (tree : Tree) → Decidable tree.IsWritable
  | .null | .bool _ | .int _ => isTrue trivial
  | .double value => inferInstanceAs (Decidable (value.isFinite = true))
  | .string text => inferInstanceAs (Decidable (Yaml.Scalar.IsWritableText text.toList))
  | .sequence items => decideItemsAreWritable items
  | .mapping entries => decideEntriesAreWritable entries

/-- Decides whether items can all be written and read back. -/
def decideItemsAreWritable : (items : List Tree) → Decidable (ItemsAreWritable items)
  | [] => isTrue trivial
  | item :: rest =>
    have := decideIsWritable item
    have := decideItemsAreWritable rest
    inferInstanceAs (Decidable (item.IsWritable ∧ ItemsAreWritable rest))

/-- Decides whether entries can all be written and read back. -/
def decideEntriesAreWritable : (entries : List (String × Tree)) → Decidable (EntriesAreWritable entries)
  | [] => isTrue trivial
  | (key, value) :: rest =>
    have := decideIsWritable value
    have := decideEntriesAreWritable rest
    inferInstanceAs (Decidable (Yaml.Scalar.IsWritableKey key ∧ value.IsWritable
      ∧ EntriesAreWritable rest))

end

instance (tree : Tree) : Decidable tree.IsWritable :=
  decideIsWritable tree

theorem entriesAreWritable_iff {entries : List (String × Tree)} :
    EntriesAreWritable entries
      ↔ ∀ entry ∈ entries, Yaml.Scalar.IsWritableKey entry.1 ∧ entry.2.IsWritable := by
  induction entries with
  | nil => simp [EntriesAreWritable]
  | cons entry rest ih => rw [EntriesAreWritable, ih, List.forall_mem_cons, and_assoc]

mutual

/-- An ordered tree holds the same scalars and keys, so it is writable too. -/
theorem isWritable_ordered : (tree : Tree) → tree.IsWritable → tree.ordered.IsWritable
  | .null, writable => writable
  | .bool _, writable => writable
  | .int _, writable => writable
  | .double _, writable => writable
  | .string _, writable => writable
  | .sequence items, writable => itemsAreWritable_ordered items writable
  | .mapping entries, writable => by
    have perm := Entries.sortByKey_perm (entriesOrdered entries)
    have all := entriesAreWritable_iff.1 (entriesAreWritable_ordered entries writable)
    exact entriesAreWritable_iff.2 fun entry member => all entry (perm.mem_iff.1 member)

theorem itemsAreWritable_ordered : (items : List Tree) → ItemsAreWritable items →
    ItemsAreWritable (itemsOrdered items)
  | [], _ => trivial
  | item :: rest, ⟨writable, others⟩ =>
    ⟨isWritable_ordered item writable, itemsAreWritable_ordered rest others⟩

theorem entriesAreWritable_ordered : (entries : List (String × Tree)) → EntriesAreWritable entries →
    EntriesAreWritable (entriesOrdered entries)
  | [], _ => trivial
  | (_, value) :: rest, ⟨key, writable, others⟩ =>
    ⟨key, isWritable_ordered value writable, entriesAreWritable_ordered rest others⟩

end

end Tree

namespace Yaml

/-- What a node is in the line of its parent; a container with children is nothing there. -/
def cell? : Tree → Option Cell
  | .mapping [] => some .emptyMapping
  | .sequence [] => some .emptySequence
  | .mapping _ | .sequence _ => none
  | scalar => some (.scalar (Written.ofScalar scalar))

/-- The rows of a child: one for what leads it in, and below it those of its own children. -/
def leadRows (indent : Nat) (lead : Lead) (child : Tree) (below : List Row) : List Row :=
  match cell? child with
  | some cell => [⟨indent, lead, some cell⟩]
  | none => ⟨indent, lead, none⟩ :: below

/-- The lead of an entry. -/
def keyLead (key : String) : Lead :=
  .entry (.ofText key.toList true)

mutual

/-- The rows of the children of a node. -/
def childRows (indent : Nat) : Tree → List Row
  | .mapping entries => entryRows indent entries
  | .sequence items => itemRows indent items
  | _ => []

/-- The rows of entries, one after another. -/
def entryRows (indent : Nat) : List (String × Tree) → List Row
  | [] => []
  | (key, value) :: rest =>
    leadRows indent (keyLead key) value (childRows (indent + 2) value) ++ entryRows indent rest

/-- The rows of items, one after another. -/
def itemRows (indent : Nat) : List Tree → List Row
  | [] => []
  | item :: rest => leadRows indent .item item (childRows (indent + 2) item) ++ itemRows indent rest

end

/-! ## Lines -/

/-- A row as a line that can be written. -/
def Row.asLine (row : Row) : Line :=
  .ok row.line

/-- The rows of an entry. -/
def rowsOfEntry (indent : Nat) (entry : String × Tree) : List Row :=
  leadRows indent (keyLead entry.1) entry.2 (childRows (indent + 2) entry.2)

theorem entryRows_eq_flatMap (indent : Nat) (entries : List (String × Tree)) :
    entryRows indent entries = entries.flatMap (rowsOfEntry indent) := by
  induction entries with
  | nil => rfl
  | cons entry rest ih =>
    rw [entryRows, ih, List.flatMap_cons]
    rfl

/-- An ordered node stands in the line of its parent as the node itself does. -/
theorem inline?_eq {tree : Tree} (writable : tree.IsWritable) :
    inline? tree = (cell? tree.ordered).map fun cell => .ok cell.chars := by
  cases tree with
  | sequence items =>
    cases items with
    | nil => rfl
    | cons item rest => rfl
  | mapping entries =>
    cases entries with
    | nil =>
      have sorted : Entries.sortByKey (Tree.entriesOrdered []) = [] := (Entries.sortByKey_perm _).eq_nil
      rw [Tree.ordered, sorted]
      rfl
    | cons entry rest =>
      have perm := Entries.sortByKey_perm (Tree.entriesOrdered (entry :: rest))
      have some : Entries.sortByKey (Tree.entriesOrdered (entry :: rest)) ≠ [] := by
        intro none
        rw [none] at perm
        cases perm.nil_eq
      cases sorted : Entries.sortByKey (Tree.entriesOrdered (entry :: rest)) with
      | nil => exact absurd sorted some
      | cons first others =>
        rw [Tree.ordered, sorted]
        rfl
  | null => exact congrArg some (Scalar.write_of_isWritable writable)
  | bool value => exact congrArg some (Scalar.write_of_isWritable writable)
  | int value => exact congrArg some (Scalar.write_of_isWritable writable)
  | double value => exact congrArg some (Scalar.write_of_isWritable writable)
  | string text => exact congrArg some (Scalar.write_of_isWritable writable)

theorem leadIn_eq {tree : Tree} (writable : tree.IsWritable) (indent : Nat) (lead : Lead)
    (below : List Row) :
    leadIn (.ok (pad indent ++ lead.chars)) tree (below.map Row.asLine)
      = (leadRows indent lead tree.ordered below).map Row.asLine := by
  unfold leadIn leadRows
  rw [inline?_eq writable]
  cases cell? tree.ordered with
  | some cell => simp [Row.asLine, Row.line, Row.content, Row.tail, pad, bind, Except.bind, pure, Except.pure]
  | none => simp [Row.asLine, Row.line, Row.content, Row.tail, pad]

theorem entryLead_eq {key : String} (writable : Scalar.IsWritableKey key) (indent : Nat) :
    entryLead indent key = .ok (pad indent ++ (keyLead key).chars) := by
  unfold entryLead Scalar.writeKey
  rw [Scalar.stringText_of_isWritableText writable.text]
  simp [Except.map, keyLead, Lead.chars]

mutual

/-- The lines of children are the rows of the ordered children. -/
theorem childLines_eq (indent : Nat) : (tree : Tree) → tree.IsWritable →
    childLines indent tree = (childRows indent tree.ordered).map Row.asLine
  | .null, _ => rfl
  | .bool _, _ => rfl
  | .int _, _ => rfl
  | .double _, _ => rfl
  | .string _, _ => rfl
  | .sequence items, writable => itemLines_eq indent items writable
  | .mapping entries, writable => by
    unfold childLines
    rw [entryBlocks_eq indent entries writable, Entries.sortByKey_map
      (fun entry => (entry.1, (rowsOfEntry indent entry).map Row.asLine)) (fun _ => rfl), Tree.ordered,
      childRows, entryRows_eq_flatMap, List.flatMap_map, List.map_flatMap]

theorem itemLines_eq (indent : Nat) : (items : List Tree) → Tree.ItemsAreWritable items →
    itemLines indent items = (itemRows indent (Tree.itemsOrdered items)).map Row.asLine
  | [], _ => rfl
  | item :: rest, ⟨writable, others⟩ => by
    rw [itemLines, Tree.itemsOrdered, itemRows, List.map_append, ← itemLines_eq indent rest others,
      ← leadIn_eq writable, ← childLines_eq (indent + 2) item writable]
    rfl

theorem entryBlocks_eq (indent : Nat) : (entries : List (String × Tree)) →
    Tree.EntriesAreWritable entries →
    entryBlocks indent entries = (Tree.entriesOrdered entries).map fun entry =>
      (entry.1, (rowsOfEntry indent entry).map Row.asLine)
  | [], _ => rfl
  | (key, value) :: rest, ⟨keyWritable, writable, others⟩ => by
    rw [entryBlocks, Tree.entriesOrdered, List.map_cons, ← entryBlocks_eq indent rest others,
      rowsOfEntry, ← leadIn_eq writable, ← childLines_eq (indent + 2) value writable,
      entryLead_eq keyWritable]

end

theorem joinLines_asLine (rows : List Row) :
    joinLines (rows.map Row.asLine) = (rowsText rows, none) := by
  induction rows with
  | nil => rfl
  | cons row rows ih =>
    rw [List.map_cons, Row.asLine, joinLines, ih, rowsText, rowsText, List.flatMap_cons]
    simp

/-- A writable tree is written as one cell, or as the rows of its ordered children. -/
theorem write_eq {tree : Tree} (writable : tree.IsWritable) :
    write tree = .ok (match cell? tree.ordered with
      | some cell => cell.chars ++ ['\n']
      | none => rowsText (childRows 0 tree.ordered)) := by
  unfold write treeLines
  rw [inline?_eq writable]
  cases cell? tree.ordered with
  | some cell => rfl
  | none =>
    dsimp only [Option.map_none]
    rw [childLines_eq 0 tree writable, joinLines_asLine]

/-! ## Soundness -/

theorem isSound_cell? {tree : Tree} {cell : Cell} (writable : tree.IsWritable)
    (found : cell? tree = some cell) :
    cell.IsSound ∧ cell.chars.all isPrintable = true := by
  have scalar (node : Tree) (writable : Scalar.IsWritable node)
      (found : some (Cell.scalar (Written.ofScalar node)) = some cell) :
      cell.IsSound ∧ cell.chars.all isPrintable = true := by
    cases found
    have back := Scalar.readsBack_ofScalar writable
    exact ⟨back.sound, back.printable⟩
  cases tree with
  | sequence items =>
    cases items with
    | nil =>
      cases found
      exact ⟨trivial, rfl⟩
    | cons item rest => cases found
  | mapping entries =>
    cases entries with
    | nil =>
      cases found
      exact ⟨trivial, rfl⟩
    | cons entry rest => cases found
  | null => exact scalar .null writable found
  | bool value => exact scalar (.bool value) writable found
  | int value => exact scalar (.int value) writable found
  | double value => exact scalar (.double value) writable found
  | string text => exact scalar (.string text) writable found

theorem isSound_keyLead {key : String} (writable : Scalar.IsWritableKey key) :
    (keyLead key).IsSound ∧ (keyLead key).chars.all isPrintable = true := by
  have back := Scalar.readsBack_ofText writable.text true
  refine ⟨⟨back.sound, writable.short _ (Scalar.stringText_of_isWritableText writable.text true)⟩, ?_⟩
  unfold keyLead Lead.chars
  rw [List.all_append, back.printable]
  rfl

theorem firstIndent_leadRows (indent : Nat) (lead : Lead) (child : Tree) (below more : List Row) :
    firstIndent (leadRows indent lead child below ++ more) = indent := by
  unfold leadRows
  cases cell? child <;> rfl

theorem firstIndent_itemRows {indent : Nat} {more : List Row} (shallow : firstIndent more ≤ indent)
    (items : List Tree) : firstIndent (itemRows indent items ++ more) ≤ indent := by
  cases items with
  | nil => exact shallow
  | cons item rest =>
    refine Nat.le_of_eq ?_
    rw [itemRows, List.append_assoc, firstIndent_leadRows]

theorem firstIndent_entryRows {indent : Nat} {more : List Row} (shallow : firstIndent more ≤ indent)
    (entries : List (String × Tree)) : firstIndent (entryRows indent entries ++ more) ≤ indent := by
  cases entries with
  | nil => exact shallow
  | cons entry rest =>
    refine Nat.le_of_eq ?_
    rw [entryRows, List.append_assoc, firstIndent_leadRows]

/-- The rows of a child are sound before rows that are no deeper, if those below it are. -/
theorem rowsSound_leadRows {indent : Nat} {lead : Lead} {child : Tree} {below more : List Row}
    (leadSound : lead.IsSound) (writable : child.IsWritable) (shallow : firstIndent more ≤ indent)
    (sound : RowsSound more) (belowSound : RowsSound (below ++ more)) :
    RowsSound (leadRows indent lead child below ++ more) := by
  unfold leadRows
  cases found : cell? child with
  | some cell =>
    refine ⟨leadSound, fun other same => ?_, sound⟩
    cases same
    exact ⟨(isSound_cell? writable found).1, shallow⟩
  | none => exact ⟨leadSound, nofun, belowSound⟩

mutual

/-- The rows of children are sound before rows that are no deeper. -/
theorem rowsSound_childRows {indent : Nat} {more : List Row} (shallow : firstIndent more ≤ indent)
    (sound : RowsSound more) : (tree : Tree) → tree.IsWritable →
    RowsSound (childRows indent tree ++ more)
  | .null, _ => sound
  | .bool _, _ => sound
  | .int _, _ => sound
  | .double _, _ => sound
  | .string _, _ => sound
  | .sequence items, writable => rowsSound_itemRows shallow sound items writable
  | .mapping entries, writable => rowsSound_entryRows shallow sound entries writable

theorem rowsSound_itemRows {indent : Nat} {more : List Row} (shallow : firstIndent more ≤ indent)
    (sound : RowsSound more) : (items : List Tree) → Tree.ItemsAreWritable items →
    RowsSound (itemRows indent items ++ more)
  | [], _ => sound
  | item :: rest, ⟨writable, others⟩ => by
    have after := firstIndent_itemRows shallow rest
    have restSound := rowsSound_itemRows shallow sound rest others
    rw [itemRows, List.append_assoc]
    refine rowsSound_leadRows trivial writable after restSound ?_
    exact rowsSound_childRows (Nat.le_add_right_of_le after) restSound item writable

theorem rowsSound_entryRows {indent : Nat} {more : List Row} (shallow : firstIndent more ≤ indent)
    (sound : RowsSound more) : (entries : List (String × Tree)) → Tree.EntriesAreWritable entries →
    RowsSound (entryRows indent entries ++ more)
  | [], _ => sound
  | (key, value) :: rest, ⟨keyWritable, writable, others⟩ => by
    have after := firstIndent_entryRows shallow rest
    have restSound := rowsSound_entryRows shallow sound rest others
    rw [entryRows, List.append_assoc]
    refine rowsSound_leadRows (isSound_keyLead keyWritable).1 writable after restSound ?_
    exact rowsSound_childRows (Nat.le_add_right_of_le after) restSound value writable

end

theorem printable_leadRows {indent : Nat} {lead : Lead} {child : Tree} {below : List Row}
    (leadPrintable : lead.chars.all isPrintable = true) (writable : child.IsWritable)
    (belowPrintable : ∀ row ∈ below, row.content.all isPrintable = true) :
    ∀ row ∈ leadRows indent lead child below, row.content.all isPrintable = true := by
  unfold leadRows
  cases found : cell? child with
  | some cell =>
    have printable := (isSound_cell? writable found).2
    intro row member
    cases List.mem_singleton.1 member
    simp [Row.content, Row.tail, leadPrintable, printable, isPrintable]
  | none =>
    intro row member
    rcases List.mem_cons.1 member with rfl | member
    · simp [Row.content, Row.tail, leadPrintable]
    · exact belowPrintable row member

mutual

theorem printable_childRows (indent : Nat) : (tree : Tree) → tree.IsWritable →
    ∀ row ∈ childRows indent tree, row.content.all isPrintable = true
  | .null, _ => nofun
  | .bool _, _ => nofun
  | .int _, _ => nofun
  | .double _, _ => nofun
  | .string _, _ => nofun
  | .sequence items, writable => printable_itemRows indent items writable
  | .mapping entries, writable => printable_entryRows indent entries writable

theorem printable_itemRows (indent : Nat) : (items : List Tree) → Tree.ItemsAreWritable items →
    ∀ row ∈ itemRows indent items, row.content.all isPrintable = true
  | [], _ => nofun
  | item :: rest, ⟨writable, others⟩ => by
    rw [itemRows]
    refine List.forall_mem_append.2 ⟨?_, printable_itemRows indent rest others⟩
    exact printable_leadRows rfl writable (printable_childRows (indent + 2) item writable)

theorem printable_entryRows (indent : Nat) : (entries : List (String × Tree)) →
    Tree.EntriesAreWritable entries →
    ∀ row ∈ entryRows indent entries, row.content.all isPrintable = true
  | [], _ => nofun
  | (key, value) :: rest, ⟨keyWritable, writable, others⟩ => by
    rw [entryRows]
    refine List.forall_mem_append.2 ⟨?_, printable_entryRows indent rest others⟩
    exact printable_leadRows (isSound_keyLead keyWritable).2 writable
      (printable_childRows (indent + 2) value writable)

end

/-- Printable rows make a printable text. -/
theorem printable_rowsText {rows : List Row}
    (printable : ∀ row ∈ rows, row.content.all isPrintable = true) :
    (rowsText rows).all isPrintable = true := by
  induction rows with
  | nil => rfl
  | cons row rows ih =>
    obtain ⟨first, others⟩ := List.forall_mem_cons.1 printable
    have spaces : (List.replicate row.indent ' ').all isPrintable = true :=
      List.all_eq_true.2 fun c member => by
        rw [List.eq_of_mem_replicate member]
        rfl
    rw [rowsText, List.flatMap_cons, List.all_append, List.all_append, Row.line, List.all_append, first,
      spaces]
    exact ih others

end Yaml

end LayeredConfig
