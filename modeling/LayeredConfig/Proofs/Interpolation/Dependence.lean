import LayeredConfig.Proofs.Interpolation.Parts
import LayeredConfig.Proofs.Tree.Nodes
import LayeredConfig.Tree.PlainText
import Mathlib.Logic.Relation

/-!
# What a node waits for

A string waits for the nodes that its references lead to (`Refers`), and a container waits for its children. `Depends`
is both. `Resolvable` says of a tree what its strings need in order to expand: they close their markers, their
references lead to scalars, and no string waits for itself through strings.

In a tree whose references lead to scalars the two kinds of cycles come to the same, `exists_leafRefers_cycle`: a child
stands deeper than its parent, so a cycle passes a reference, and behind a reference there are only references.
-/

namespace LayeredConfig.Interpolation

open Relation

section

variable (surroundings : Surroundings) (tree : Tree)

/-- The string at `path` evaluates a reference to the node at `target`. -/
def Refers (path target : KeyPath) : Prop :=
  ∃ text expression node, tree.NodeAt path (.string text)
    ∧ Evaluates surroundings text.toList expression
    ∧ KeyPath.parse (String.ofList expression) = .ok target ∧ tree.find target = some node

/-- The string at `path` evaluates a reference to the string at `target`. -/
def LeafRefers (path target : KeyPath) : Prop :=
  Refers surroundings tree path target ∧ ∃ text, tree.NodeAt target (.string text)

/-- The node at `path` refers to the node at `target`, or holds it as a child. -/
inductive Depends : KeyPath → KeyPath → Prop
  | reference {path target : KeyPath} (refers : Refers surroundings tree path target) : Depends path target
  | item {path : KeyPath} {items : List Tree} {position : Nat} {item : Tree}
      (parent : tree.NodeAt path (.sequence items)) (found : items[position]? = some item) :
      Depends path (Tree.itemAddress path position)
  | entry {path : KeyPath} {entries : List (String × Tree)} {key : String} {value : Tree}
      (parent : tree.NodeAt path (.mapping entries)) (member : (key, value) ∈ entries) :
      Depends path (Tree.entryAddress path key)

/-- A reference that can be written as a path and leads to a node that is no container. -/
def Resolves (expression : List Char) : Prop :=
  ∃ target node, KeyPath.parse (String.ofList expression) = .ok target ∧ tree.find target = some node
    ∧ node.isContainer = false

/-- The strings of a tree close their markers, their references lead to scalars, and none of them refers to itself
through strings. -/
structure Resolvable : Prop where
  closed : ∀ path text, tree.NodeAt path (.string text) → Closed text.toList
  resolves : ∀ path text expression, tree.NodeAt path (.string text) →
    Evaluates surroundings text.toList expression → Resolves tree expression
  acyclic : ∀ path, ¬TransGen (LeafRefers surroundings tree) path path

/-- A string of the tree does not close its markers, or evaluates a reference that does not lead to a scalar. -/
def Flawed : Prop :=
  ∃ path text, tree.NodeAt path (.string text)
    ∧ (¬Closed text.toList
      ∨ ∃ expression, Evaluates surroundings text.toList expression ∧ ¬Resolves tree expression)

end

variable {surroundings : Surroundings} {tree : Tree}

theorem Resolvable.not_flawed (resolvable : Resolvable surroundings tree) : ¬Flawed surroundings tree := by
  intro holds
  rcases holds with ⟨path, text, leaf, unclosed | ⟨expression, evaluates, fails⟩⟩
  · exact unclosed (resolvable.closed path text leaf)
  · exact fails (resolvable.resolves path text expression leaf evaluates)

theorem not_resolves_of_error {expression : List Char} {e : Error}
    (fails : KeyPath.parse (String.ofList expression) = .error e) : ¬Resolves tree expression := by
  intro resolves
  rcases resolves with ⟨target, _, parses, -⟩
  cases fails.symm.trans parses

theorem not_resolves_of_absent {expression : List Char} {target : KeyPath}
    (parses : KeyPath.parse (String.ofList expression) = .ok target) (absent : tree.find target = none) :
    ¬Resolves tree expression := by
  intro resolves
  rcases resolves with ⟨target', node, parses', found, -⟩
  cases parses.symm.trans parses'
  cases absent.symm.trans found

theorem not_resolves_of_container {expression : List Char} {target : KeyPath} {node : Tree}
    (parses : KeyPath.parse (String.ofList expression) = .ok target) (found : tree.find target = some node)
    (container : node.isContainer = true) : ¬Resolves tree expression := by
  intro resolves
  rcases resolves with ⟨target', node', parses', found', scalar⟩
  cases parses.symm.trans parses'
  cases found.symm.trans found'
  cases container.symm.trans scalar

/-- What a node depends on, by its kind. -/
theorem depends_cases (distinct : tree.HasDistinctKeys) {path target : KeyPath} {node : Tree}
    (stands : tree.NodeAt path node) (depends : Depends surroundings tree path target) :
    match node with
    | .mapping entries => ∃ key value, (key, value) ∈ entries ∧ target = Tree.entryAddress path key
    | .sequence items => ∃ position item, items[position]? = some item
        ∧ target = Tree.itemAddress path position
    | .string text => ∃ expression inner, Evaluates surroundings text.toList expression
        ∧ KeyPath.parse (String.ofList expression) = .ok target ∧ tree.find target = some inner
    | _ => False := by
  cases depends with
  | reference refers =>
    obtain ⟨text, expression, inner, leaf, evaluates, parses, found⟩ := refers
    cases stands.unique distinct leaf
    exact ⟨expression, inner, evaluates, parses, found⟩
  | item parent found =>
    cases stands.unique distinct parent
    exact ⟨_, _, found, rfl⟩
  | entry parent member =>
    cases stands.unique distinct parent
    exact ⟨_, _, member, rfl⟩

/-! ## Cycles -/

theorem length_lt_or_refers {path target : KeyPath} (depends : Depends surroundings tree path target) :
    path.length < target.length ∨ Refers surroundings tree path target := by
  cases depends with
  | reference refers => exact Or.inr refers
  | item => exact Or.inl (by simp [Tree.itemAddress])
  | entry => exact Or.inl (by simp [Tree.entryAddress])

/-- A way of dependences leads downwards or passes a reference. -/
theorem exists_refers {path target : KeyPath} (way : TransGen (Depends surroundings tree) path target) :
    path.length < target.length
      ∨ ∃ leaf referred, ReflTransGen (Depends surroundings tree) path leaf
        ∧ Refers surroundings tree leaf referred
        ∧ ReflTransGen (Depends surroundings tree) referred target := by
  induction way with
  | single depends =>
    rcases length_lt_or_refers depends with deeper | refers
    · exact Or.inl deeper
    · exact Or.inr ⟨_, _, .refl, refers, .refl⟩
  | tail way depends ih =>
    rcases ih with deeper | ⟨leaf, referred, front, refers, back⟩
    · rcases length_lt_or_refers depends with deeper' | refers
      · exact Or.inl (by omega)
      · exact Or.inr ⟨_, _, way.to_reflTransGen, refers, .refl⟩
    · exact Or.inr ⟨leaf, referred, front, refers, back.tail depends⟩

/-- A node that is no container depends on what it refers to and on nothing else. -/
theorem refers_of_depends (distinct : tree.HasDistinctKeys) {path target : KeyPath} {node : Tree}
    (stands : tree.NodeAt path node) (scalar : node.isContainer = false)
    (depends : Depends surroundings tree path target) : Refers surroundings tree path target := by
  have cases := depends_cases distinct stands depends
  cases node with
  | string text =>
    obtain ⟨expression, inner, evaluates, parses, found⟩ := cases
    exact ⟨text, expression, inner, stands, evaluates, parses, found⟩
  | mapping | sequence => cases scalar
  | null | bool | int | double => cases cases

theorem Refers.scalar {path target : KeyPath} (sound : ¬Flawed surroundings tree)
    (refers : Refers surroundings tree path target) :
    ∃ node, tree.NodeAt target node ∧ node.isContainer = false := by
  obtain ⟨text, expression, node, leaf, evaluates, parses, found⟩ := refers
  refine ⟨node, Tree.nodeAt_of_find found, ?_⟩
  cases container : node.isContainer with
  | false => rfl
  | true =>
    have fails := not_resolves_of_container parses found container
    exact absurd ⟨path, text, leaf, Or.inr ⟨expression, evaluates, fails⟩⟩ sound

/-- Behind a reference there are only references. -/
theorem transGen_leafRefers (distinct : tree.HasDistinctKeys) (sound : ¬Flawed surroundings tree)
    {path target : KeyPath} {text : String} (leaf : tree.NodeAt path (.string text))
    (way : TransGen (Depends surroundings tree) path target) :
    ∃ node, tree.NodeAt target node ∧ node.isContainer = false
      ∧ ∀ text, node = .string text → TransGen (LeafRefers surroundings tree) path target := by
  induction way with
  | single depends =>
    have refers := refers_of_depends distinct leaf rfl depends
    obtain ⟨node, stands, scalar⟩ := refers.scalar sound
    exact ⟨node, stands, scalar, fun text same => .single ⟨refers, text, same ▸ stands⟩⟩
  | tail _ depends ih =>
    obtain ⟨node, stands, scalar, before⟩ := ih
    have refers := refers_of_depends distinct stands scalar depends
    obtain ⟨target, stands', scalar'⟩ := refers.scalar sound
    obtain ⟨text, -, -, leaf', -⟩ := id refers
    have front := before text (stands.unique distinct leaf')
    exact ⟨target, stands', scalar', fun text same => front.tail ⟨refers, text, same ▸ stands'⟩⟩

/-- If references lead to scalars, a cycle of dependences holds a cycle of strings. -/
theorem exists_leafRefers_cycle (distinct : tree.HasDistinctKeys) (sound : ¬Flawed surroundings tree)
    {path : KeyPath} (cycle : TransGen (Depends surroundings tree) path path) :
    ∃ leaf, TransGen (LeafRefers surroundings tree) leaf leaf := by
  rcases exists_refers cycle with deeper | ⟨leaf, referred, front, refers, back⟩
  · omega
  · obtain ⟨text, -, -, stands, -⟩ := id refers
    have around : TransGen (Depends surroundings tree) leaf leaf :=
      .head' (.reference refers) (back.trans front)
    obtain ⟨node, stands', -, whole⟩ := transGen_leafRefers distinct sound stands around
    exact ⟨leaf, whole text (stands'.unique distinct stands)⟩

theorem not_transGen_of_acc {α : Type} {r : α → α → Prop} {a : α} (acc : Acc (fun x y => r y x) a) :
    ¬TransGen r a a := by
  induction acc with
  | intro a _ ih =>
    intro cycle
    obtain ⟨b, first, rest⟩ := TransGen.head'_iff.1 cycle
    exact ih b first (TransGen.tail' rest first)

end LayeredConfig.Interpolation
