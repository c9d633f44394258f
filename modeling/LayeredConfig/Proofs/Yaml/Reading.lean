import LayeredConfig.Proofs.Outcome
import LayeredConfig.Proofs.Tree.MadeOf
import LayeredConfig.Yaml.Read

/-!
# What is read

A tree is made of what the scalars of its events are typed as: `Walk.madeOf_run`. What is kept on the way over the events
is that the collections which are not complete are made of the same (`Walk.MadeOf`). So, whatever the text, a tree that is
read from it holds no key twice and only doubles that are finite: `regular_read`.
-/

namespace LayeredConfig

/-- A double that is finite, or another node. -/
def Tree.IsFiniteNode : Tree → Prop
  | .double value => value.isFinite = true
  | _ => True

/-- A tree without infinities and without keys that come twice. -/
def Tree.Regular (tree : Tree) : Prop :=
  tree.MadeOf Tree.IsFiniteNode fun _ => True

namespace Yaml

namespace Scalar

theorem isFinite_of_double? {text : List Char} {value : Binary64} (found : double? text = some value) :
    value.isFinite = true := by
  obtain ⟨numeral, -, found⟩ := Option.bind_eq_some_iff.1 found
  dsimp only at found
  split at found
  · next kept =>
    cases found
    simp only [Bool.and_eq_true] at kept
    exact kept.1.2
  · cases found

/-- What a text is typed as: a finite scalar, and if that is a string, the text itself. -/
theorem scalar_of_read {text : List Char} {node : Tree} (reads : read text = .ok node) :
    node.isContainer = false ∧ node.IsFiniteNode ∧ ∀ string, node = .string string → string = String.ofList text := by
  unfold read at reads
  split at reads
  · next constant =>
    cases reads
    unfold constant? at constant
    dsimp only at constant
    repeat' split at constant
    all_goals cases constant
    all_goals exact ⟨rfl, trivial, fun _ same => by cases same⟩
  · split at reads
    · cases reads
    · cases reads
      exact ⟨rfl, trivial, fun _ same => by cases same⟩
    · split at reads
      · next value found =>
        cases reads
        exact ⟨rfl, isFinite_of_double? found, fun _ same => by cases same⟩
      · cases reads
        exact ⟨rfl, trivial, fun _ same => (Tree.string.inj same).symm⟩

end Scalar

/-- A collection that is not complete, but made of such scalars and keys so far. -/
def Frame.MadeOf (scalar : Tree → Prop) (key : String → Prop) : Frame → Prop
  | .sequence items => ∀ item ∈ items, item.MadeOf scalar key
  | .mapping entries due => (Tree.mapping entries).MadeOf scalar key ∧ ∀ name, due = some name → key name

/-- If the event is a scalar, then it is typed as one of these. -/
def Event.Types (scalar : Tree → Prop) (key : String → Prop) (event : Event) : Prop :=
  ∀ properties word style node, event = .scalar properties word style →
    Walk.scalarNode properties word style = .ok node → node.MadeOf scalar key

namespace Walk

/-- How far a document has been read, all of it made of such scalars and keys. -/
def MadeOf (scalar : Tree → Prop) (key : String → Prop) : Walk → Prop
  | .beforeStream | .beforeDocument => True
  | .inside frames => ∀ frame ∈ frames, frame.MadeOf scalar key
  | .afterRoot root | .afterDocument root | .done root => root.MadeOf scalar key

section

variable {source : String} {walk walk' : Walk} {scalar : Tree → Prop} {key : String → Prop}

/-- A node goes where it belongs; a string may be a key, and is one of the keys then. -/
theorem madeOf_deliver {node : Tree} {frames : List Frame} (named : ∀ text, scalar (.string text) → key text)
    (madeOf : node.MadeOf scalar key) (inside : ∀ frame ∈ frames, frame.MadeOf scalar key)
    (delivers : deliver source node frames = .ok walk) : walk.MadeOf scalar key := by
  unfold deliver at delivers
  split at delivers
  · cases delivers
    exact madeOf
  · next items frames =>
    cases delivers
    rw [List.forall_mem_cons] at inside
    exact List.forall_mem_cons.2 ⟨List.forall_mem_cons.2 ⟨madeOf, inside.1⟩, inside.2⟩
  · next entries name frames =>
    cases delivers
    rw [List.forall_mem_cons] at inside
    obtain ⟨⟨entriesMadeOf, due⟩, outer⟩ := inside
    have filled := Tree.MadeOf.put entriesMadeOf (due name rfl) madeOf
    exact List.forall_mem_cons.2 ⟨⟨filled, fun _ none => by cases none⟩, outer⟩
  · split at delivers
    · next name =>
      cases delivers
      rw [List.forall_mem_cons] at inside
      have good : key name := named name ((Tree.madeOf_scalar_iff rfl).1 madeOf)
      exact List.forall_mem_cons.2 ⟨⟨inside.1.1, fun _ same => Option.some.inj same ▸ good⟩, inside.2⟩
    · cases delivers

theorem madeOf_stepInside {frames : List Frame} {event : Event} (named : ∀ text, scalar (.string text) → key text)
    (inside : ∀ frame ∈ frames, frame.MadeOf scalar key) (types : event.Types scalar key)
    (steps : stepInside source frames event = .ok walk) : walk.MadeOf scalar key := by
  unfold stepInside at steps
  split at steps
  · cases steps
  · next properties word style =>
    obtain ⟨-, -, steps⟩ := Outcome.bind_eq_ok.1 steps
    obtain ⟨node, reads, steps⟩ := Outcome.bind_eq_ok.1 steps
    exact madeOf_deliver named (types properties word style node rfl reads) inside steps
  · obtain ⟨-, -, steps⟩ := Outcome.bind_eq_ok.1 steps
    cases steps
    exact List.forall_mem_cons.2 ⟨fun _ member => absurd member List.not_mem_nil, inside⟩
  · obtain ⟨-, -, steps⟩ := Outcome.bind_eq_ok.1 steps
    cases steps
    exact List.forall_mem_cons.2 ⟨⟨Tree.madeOf_empty, fun _ none => by cases none⟩, inside⟩
  · rw [List.forall_mem_cons] at inside
    refine madeOf_deliver named (.sequence fun item member => ?_) inside.2 steps
    exact inside.1 item (List.mem_reverse.1 member)
  · rw [List.forall_mem_cons] at inside
    exact madeOf_deliver named inside.1.1 inside.2 steps
  · cases steps

theorem madeOf_step {event : Event} (null : scalar .null) (named : ∀ text, scalar (.string text) → key text)
    (madeOf : walk.MadeOf scalar key) (types : event.Types scalar key) (steps : walk.step source event = .ok walk') :
    walk'.MadeOf scalar key := by
  unfold step at steps
  split at steps
  case h_6 => exact madeOf_stepInside named madeOf types steps
  all_goals cases steps
  case h_1 => exact trivial
  case h_3 => exact .scalar rfl null
  case h_4 => exact List.forall_mem_nil (Frame.MadeOf scalar key)
  all_goals exact madeOf

/-- Events that are typed as such scalars make a tree of them. -/
theorem madeOf_run {fault : Fault} {events : List Event} {tree : Tree} (null : scalar .null)
    (named : ∀ text, scalar (.string text) → key text) (madeOf : walk.MadeOf scalar key)
    (types : ∀ event ∈ events, event.Types scalar key) (runs : walk.run source fault events = .ok tree) :
    tree.MadeOf scalar key := by
  induction events generalizing walk with
  | nil =>
    cases walk with
    | done root =>
      cases runs
      exact madeOf
    | beforeStream | beforeDocument | inside | afterRoot | afterDocument => cases runs
  | cons event rest ih =>
    rw [List.forall_mem_cons] at types
    rw [run] at runs
    obtain ⟨walk', steps, runs⟩ := Outcome.bind_eq_ok.1 runs
    exact ih (madeOf_step null named madeOf types.1 steps) types.2 runs

end

theorem scalar_of_scalarNode {properties : Properties} {text : List Char} {style : Style} {node : Tree}
    (typed : scalarNode properties text style = .ok node) :
    node.isContainer = false ∧ node.IsFiniteNode ∧ ∀ string, node = .string string → string = String.ofList text := by
  unfold scalarNode at typed
  split at typed
  · cases typed
    exact ⟨rfl, trivial, fun _ same => (Tree.string.inj same).symm⟩
  · exact Scalar.scalar_of_read typed

end Walk

/-- Every tree that is read from a text is regular. -/
theorem regular_read {source : String} {text : List Char} {tree : Tree} (reads : read source text = .ok tree) :
    tree.Regular := by
  have start : Walk.MadeOf Tree.IsFiniteNode (fun _ => True) .beforeStream := trivial
  refine Walk.madeOf_run trivial (fun _ _ => trivial) start (fun _ _ _ _ _ _ _ typed => ?_) reads
  obtain ⟨leaf, finite, -⟩ := Walk.scalar_of_scalarNode typed
  exact .scalar leaf finite

end Yaml

end LayeredConfig
