import LayeredConfig.Proofs.Interpolation.Success
import LayeredConfig.Proofs.Tree.MadeOf

/-!
# Trees without placeholders

Interpolation succeeds on a tree whose strings hold no marker, whatever the surroundings, and gives the tree back:
`interpolate_of_literal`.
-/

namespace LayeredConfig

namespace Tree

variable {root : Tree} {f : KeyPath → String → String}

mutual

/-- A tree stays as it is when each of its strings does. -/
theorem mapStrings_of_same (same : ∀ path text, root.NodeAt path (.string text) → f path text = text) :
    (tree : Tree) → {path : KeyPath} → root.NodeAt path tree → tree.mapStrings f path = tree
  | .null, _, _ => rfl
  | .bool _, _, _ => rfl
  | .int _, _, _ => rfl
  | .double _, _, _ => rfl
  | .string text, path, stands => congrArg Tree.string (same path text stands)
  | .sequence items, _, stands => congrArg Tree.sequence (mapItemStrings_of_same same items stands.items)
  | .mapping entries, _, stands => congrArg Tree.mapping (mapEntryStrings_of_same same entries stands.entries)

theorem mapItemStrings_of_same (same : ∀ path text, root.NodeAt path (.string text) → f path text = text) :
    (items : List Tree) → {path : KeyPath} → {start : Nat} → AllItems root.NodeAt path start items →
    mapItemStrings f path start items = items
  | [], _, _, _ => rfl
  | item :: rest, _, _, ⟨first, later⟩ => by
    rw [mapItemStrings, mapStrings_of_same same item first, mapItemStrings_of_same same rest later]

theorem mapEntryStrings_of_same (same : ∀ path text, root.NodeAt path (.string text) → f path text = text) :
    (entries : List (String × Tree)) → {path : KeyPath} → AllEntries root.NodeAt path entries →
    mapEntryStrings f path entries = entries
  | [], _, _ => rfl
  | (key, value) :: rest, _, ⟨first, later⟩ => by
    rw [mapEntryStrings, mapStrings_of_same same value first, mapEntryStrings_of_same same rest later]

end

end Tree

namespace Interpolation

variable {tree : Tree} {surroundings : Surroundings}

theorem Evaluates.hasMarker {text expression : List Char} (evaluates : Evaluates surroundings text expression) :
    Template.hasMarker text = true := by
  cases evaluates with
  | here first | later first | fallback first => exact first.hasMarker

/-- A text without a marker expands to itself only. -/
theorem Expands.of_literal {value : KeyPath → List Char → Prop} {text out : List Char}
    (literal : Template.hasMarker text = false) (expands : Expands surroundings value text out) : out = text := by
  cases expands with
  | literal => rfl
  | placeholder first =>
    rw [first.hasMarker] at literal
    cases literal

/-- A tree whose strings close their markers and refer to nothing needs nothing of its other nodes. -/
theorem resolvable_of_free
    (free : ∀ text, tree.HasString text → Closed text.toList ∧ ∀ expression, ¬Evaluates surroundings text.toList expression) :
    Resolvable surroundings tree := by
  have nothing : ∀ path text expression, tree.NodeAt path (.string text) →
      ¬Evaluates surroundings text.toList expression := fun path text expression leaf => (free text ⟨path, leaf⟩).2 expression
  refine ⟨fun path text leaf => (free text ⟨path, leaf⟩).1, fun path text expression leaf evaluates => ?_,
    fun path cycle => ?_⟩
  · exact absurd evaluates (nothing path text expression leaf)
  · obtain ⟨-, ⟨⟨text, expression, -, leaf, evaluates, -⟩, -⟩, -⟩ := Relation.TransGen.head'_iff.1 cycle
    exact nothing _ text expression leaf evaluates

theorem free_of_literal {text : List Char} (literal : Template.hasMarker text = false) :
    Closed text ∧ ∀ expression, ¬Evaluates surroundings text expression := by
  refine ⟨.literal literal, fun expression evaluates => ?_⟩
  have marker := evaluates.hasMarker
  rw [literal] at marker
  cases marker

/-- Interpolation leaves a tree without markers as it is. -/
theorem interpolate_of_literal (surroundings : Surroundings) (distinct : tree.HasDistinctKeys)
    (literal : ∀ text, tree.HasString text → Template.hasMarker text.toList = false) :
    (tree.interpolate surroundings).failure = none ∧ (tree.interpolate surroundings).tree = tree := by
  have succeeds := (succeeds_iff surroundings distinct).2 (resolvable_of_free fun text has => free_of_literal (literal text has))
  refine ⟨succeeds, ?_⟩
  rcases interpolate_cases surroundings distinct with ⟨progress, -, final, supported, done⟩ | ⟨e, fails, -⟩
  · rw [final]
    refine Tree.mapStrings_of_same (fun path text leaf => ?_) tree .root
    have expands := expands_final distinct supported done leaf
    exact String.toList_injective (expands.of_literal (literal text ⟨path, leaf⟩))
  · cases succeeds.symm.trans fails

end Interpolation

end LayeredConfig
