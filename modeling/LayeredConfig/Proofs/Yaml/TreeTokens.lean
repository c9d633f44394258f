import LayeredConfig.Proofs.Yaml.TreeRows

/-!
# The tokens of a tree

`blockTokens` are the tokens of a node as it is written: a container with children stands between the start and the
end of a block collection. `rowTokens_childRows` says that the rows of a tree are cut into them, whatever comes after:
the first row of a container opens its collection and the next row that is less deep closes it.
-/

namespace LayeredConfig.Yaml

mutual

/-- The tokens of a node. -/
def blockTokens : Tree → List Token
  | .mapping [] => Cell.emptyMapping.tokens
  | .mapping (entry :: rest) => .blockMappingStart :: (entryTokens (entry :: rest) ++ [.blockEnd])
  | .sequence [] => Cell.emptySequence.tokens
  | .sequence (item :: rest) => .blockSequenceStart :: (itemTokens (item :: rest) ++ [.blockEnd])
  | .null => [(Written.ofScalar .null).token]
  | .bool value => [(Written.ofScalar (.bool value)).token]
  | .int value => [(Written.ofScalar (.int value)).token]
  | .double value => [(Written.ofScalar (.double value)).token]
  | .string text => [(Written.ofScalar (.string text)).token]

/-- The tokens of entries, one after another. -/
def entryTokens : List (String × Tree) → List Token
  | [] => []
  | (key, value) :: rest => (keyLead key).tokens ++ (blockTokens value ++ entryTokens rest)

/-- The tokens of items, one after another. -/
def itemTokens : List Tree → List Token
  | [] => []
  | item :: rest => .blockEntry :: (blockTokens item ++ itemTokens rest)

end

theorem blockTokens_of_cell? {tree : Tree} {cell : Cell} (found : cell? tree = some cell) :
    blockTokens tree = cell.tokens := by
  cases tree with
  | sequence items =>
    cases items with
    | nil =>
      cases found
      rfl
    | cons item rest => cases found
  | mapping entries =>
    cases entries with
    | nil =>
      cases found
      rfl
    | cons entry rest => cases found
  | null | bool | int | double | string =>
    cases found
    rfl

/-! ## Opening and closing -/

variable {indents : List Nat} {more : List Row}

theorem rowTokens_cons_same (row : Row) (outer : List Nat) :
    rowTokens (row.indent :: outer) (row :: more)
      = row.lead.tokens ++ (row.cellTokens ++ rowTokens (row.indent :: outer) more) := by
  simp [rowTokens, endsAt, keptAt, opensAt, indentsAt]

/-- The first row of a collection opens it. -/
theorem rowTokens_opens {row : Row} (deeper : ∀ innermost, indents.head? = some innermost →
    innermost < row.indent) :
    rowTokens indents (row :: more) = row.lead.start :: rowTokens (row.indent :: indents) (row :: more) := by
  rw [rowTokens_cons_same]
  cases indents with
  | nil => simp [rowTokens, endsAt, keptAt, opensAt, indentsAt]
  | cons innermost outer =>
    have less : innermost < row.indent := deeper innermost rfl
    have notDeeper : decide (row.indent < innermost) = false := decide_eq_false (Nat.lt_asymm less)
    simp [rowTokens, endsAt, keptAt, opensAt, indentsAt, less, notDeeper]

/-- The next row that is less deep closes a collection, and so does the end. -/
theorem rowTokens_closes {indent : Nat} (less : firstIndent more < indent ∨ more = []) :
    rowTokens (indent :: indents) more = .blockEnd :: rowTokens indents more := by
  cases more with
  | nil => rfl
  | cons row rows =>
    have less : row.indent < indent := less.resolve_right (List.cons_ne_nil _ _)
    have kept : keptAt (indent :: indents) row.indent = keptAt indents row.indent := by
      simp [keptAt, less]
    have ends : endsAt (indent :: indents) row.indent = .blockEnd :: endsAt indents row.indent := by
      simp [endsAt, less]
    rw [rowTokens, rowTokens, ends, indentsAt, indentsAt, kept]
    rfl

/-! ## Rows -/

theorem rowTokens_leadRows {indent : Nat} {lead : Lead} {child : Tree} {below : List Row}
    (opened : cell? child = none →
      rowTokens (indent :: indents) (below ++ more) = blockTokens child ++ rowTokens (indent :: indents) more) :
    rowTokens (indent :: indents) (leadRows indent lead child below ++ more)
      = lead.tokens ++ (blockTokens child ++ rowTokens (indent :: indents) more) := by
  unfold leadRows
  cases found : cell? child with
  | some cell =>
    rw [blockTokens_of_cell? found]
    exact rowTokens_cons_same ⟨indent, lead, some cell⟩ indents
  | none =>
    rw [← opened found]
    exact rowTokens_cons_same ⟨indent, lead, none⟩ indents

/-- Rows that begin at a new column open a collection there, and it is closed behind them. -/
theorem rowTokens_collection {indent : Nat} {start : Token} {rows : List Row} {toks : List Token}
    (deeper : ∀ innermost, indents.head? = some innermost → innermost < indent)
    (shallow : firstIndent more < indent ∨ more = [])
    (first : ∃ row others, rows = row :: others ∧ row.indent = indent ∧ row.lead.start = start)
    (inside : rowTokens (indent :: indents) (rows ++ more) = toks ++ rowTokens (indent :: indents) more) :
    rowTokens indents (rows ++ more) = start :: (toks ++ [.blockEnd]) ++ rowTokens indents more := by
  obtain ⟨row, others, rfl, rfl, rfl⟩ := first
  rw [List.cons_append, rowTokens_opens deeper, ← List.cons_append, inside, rowTokens_closes shallow]
  simp

theorem exists_leadRows (indent : Nat) (lead : Lead) (child : Tree) (below rest : List Row) :
    ∃ row others, leadRows indent lead child below ++ rest = row :: others ∧ row.indent = indent
      ∧ row.lead.start = lead.start := by
  unfold leadRows
  cases cell? child with
  | some cell => exact ⟨_, _, rfl, rfl, rfl⟩
  | none => exact ⟨_, _, rfl, rfl, rfl⟩

theorem deeper_head (indent : Nat) (outer : List Nat) :
    ∀ innermost, (indent :: outer).head? = some innermost → innermost < indent + 2 := by
  intro innermost same
  cases same
  omega

mutual

/-- The rows of a container with children are cut into its tokens. -/
theorem rowTokens_childRows {indent : Nat} {indents : List Nat} {more : List Row}
    (deeper : ∀ innermost, indents.head? = some innermost → innermost < indent)
    (shallow : firstIndent more < indent ∨ more = []) : (tree : Tree) → cell? tree = none →
    rowTokens indents (childRows indent tree ++ more) = blockTokens tree ++ rowTokens indents more
  | .sequence (item :: rest), _ => by
    have atMost : firstIndent more ≤ indent := by
      rcases shallow with less | rfl
      · exact Nat.le_of_lt less
      · exact Nat.zero_le _
    exact rowTokens_collection deeper shallow (exists_leadRows indent .item item _ _)
      (rowTokens_itemRows atMost (item :: rest))
  | .mapping (entry :: rest), _ => by
    have atMost : firstIndent more ≤ indent := by
      rcases shallow with less | rfl
      · exact Nat.le_of_lt less
      · exact Nat.zero_le _
    exact rowTokens_collection deeper shallow (exists_leadRows indent (keyLead entry.1) entry.2 _ _)
      (rowTokens_entryRows atMost (entry :: rest))

/-- The rows of items are cut into their tokens where their sequence is open. -/
theorem rowTokens_itemRows {indent : Nat} {outer : List Nat} {more : List Row}
    (shallow : firstIndent more ≤ indent) : (items : List Tree) →
    rowTokens (indent :: outer) (itemRows indent items ++ more)
      = itemTokens items ++ rowTokens (indent :: outer) more
  | [] => rfl
  | item :: rest => by
    have after := firstIndent_itemRows shallow rest
    rw [itemRows, List.append_assoc, rowTokens_leadRows, rowTokens_itemRows shallow rest, itemTokens]
    · simp [Lead.tokens]
    · exact rowTokens_childRows (deeper_head indent outer) (Or.inl (by omega)) item

/-- The rows of entries are cut into their tokens where their mapping is open. -/
theorem rowTokens_entryRows {indent : Nat} {outer : List Nat} {more : List Row}
    (shallow : firstIndent more ≤ indent) : (entries : List (String × Tree)) →
    rowTokens (indent :: outer) (entryRows indent entries ++ more)
      = entryTokens entries ++ rowTokens (indent :: outer) more
  | [] => rfl
  | (key, value) :: rest => by
    have after := firstIndent_entryRows shallow rest
    rw [entryRows, List.append_assoc, rowTokens_leadRows, rowTokens_entryRows shallow rest, entryTokens]
    · simp
    · exact rowTokens_childRows (deeper_head indent outer) (Or.inl (by omega)) value

end

end LayeredConfig.Yaml
