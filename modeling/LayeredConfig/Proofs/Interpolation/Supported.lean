import LayeredConfig.Interpolation.Settle
import LayeredConfig.Proofs.Interpolation.Dependence

/-!
# Nodes that are done

`Supported` is the invariant of settling, said of the list of nodes that are done: each node comes once, everything it
depends on was done before it, and a string has the text that it expands to when references are read off what was done
before. A node that is done never changes again (`Supported.lookup_append`), so the text is also what the string
expands to in every later list (`Supported.gets`). The list is an order of the dependences, so none of its nodes
depends on itself (`Supported.acc`).
-/

namespace LayeredConfig.Interpolation

open Relation

section

variable (surroundings : Surroundings) (tree : Tree)

/-- The node at `target` is done and has this plain text. -/
def Shown (done : List (KeyPath × Option String)) (target : KeyPath) (text : List Char) : Prop :=
  ∃ node entry, tree.find target = some node ∧ done.lookup target = some entry
    ∧ (entry.elim node Tree.string).plainText = .ok text

/-- A string gets the text that it expands to, which may be its own; no other node gets one. -/
def Gets (done : List (KeyPath × Option String)) : Tree → Option String → Prop
  | .string text, entry =>
    Expands surroundings (Shown tree done) text.toList (entry.getD text).toList
  | _, entry => entry = none

/-- Every node that is done comes once, after everything that it depends on, with the text that it expands to. -/
inductive Supported : List (KeyPath × Option String) → Prop
  | nil : Supported []
  | cons {path : KeyPath} {node : Tree} {entry : Option String} {older : List (KeyPath × Option String)}
      (stands : tree.NodeAt path node) (fresh : path ∉ older.map Prod.fst)
      (before : ∀ target, Depends surroundings tree path target → target ∈ older.map Prod.fst)
      (gets : Gets surroundings tree older node entry) (supported : Supported older) :
      Supported ((path, entry) :: older)

end

variable {surroundings : Surroundings} {tree : Tree}

/-- What is done stays as it is. -/
theorem Supported.lookup_append {newer older : List (KeyPath × Option String)}
    (supported : Supported surroundings tree (newer ++ older)) {target : KeyPath} {entry : Option String}
    (found : older.lookup target = some entry) : (newer ++ older).lookup target = some entry := by
  induction newer with
  | nil => exact found
  | cons first newer ih =>
    cases supported with
    | cons stands fresh before gets supported =>
      rename_i path node text
      have known := ih supported
      have other : target ≠ path := by
        intro same
        subst same
        exact fresh (Entries.mem_keys_of_lookup known)
      rw [List.cons_append, List.lookup_cons, beq_eq_false_iff_ne.2 other]
      exact known

theorem Shown.append {newer older : List (KeyPath × Option String)}
    (supported : Supported surroundings tree (newer ++ older)) {target : KeyPath} {text : List Char}
    (shown : Shown tree older target text) : Shown tree (newer ++ older) target text := by
  obtain ⟨node, entry, found, done, plain⟩ := shown
  exact ⟨node, entry, found, supported.lookup_append done, plain⟩

theorem Gets.append {newer older : List (KeyPath × Option String)}
    (supported : Supported surroundings tree (newer ++ older)) {node : Tree} {entry : Option String}
    (gets : Gets surroundings tree older node entry) :
    Gets surroundings tree (newer ++ older) node entry := by
  cases node with
  | string text => exact Expands.mono (fun _ _ shown => shown.append supported) gets
  | null | bool | int | double | sequence | mapping => exact gets

/-- The text of a node that is done is what the node expands to, read off all that is done. -/
theorem Supported.gets (distinct : tree.HasDistinctKeys) {done : List (KeyPath × Option String)}
    (supported : Supported surroundings tree done) {path : KeyPath} {node : Tree} {entry : Option String}
    (stands : tree.NodeAt path node) (found : done.lookup path = some entry) :
    Gets surroundings tree done node entry := by
  induction supported with
  | nil => cases found
  | @cons first other entry' older stands' fresh before gets supported ih =>
    have whole : Supported surroundings tree ([(first, entry')] ++ older) :=
      .cons stands' fresh before gets supported
    by_cases same : path = first
    · subst same
      rw [List.lookup_cons, beq_self_eq_true] at found
      cases found
      cases stands.unique distinct stands'
      exact gets.append whole
    · rw [List.lookup_cons, beq_eq_false_iff_ne.2 same] at found
      exact (ih found).append whole

/-- What a node that is done depends on is done. -/
theorem Supported.mem_of_depends {done : List (KeyPath × Option String)}
    (supported : Supported surroundings tree done) {path target : KeyPath}
    (member : path ∈ done.map Prod.fst) (depends : Depends surroundings tree path target) :
    target ∈ done.map Prod.fst := by
  induction supported with
  | nil => cases member
  | cons stands fresh before gets supported ih =>
    rcases List.mem_cons.1 member with rfl | member
    · exact List.mem_cons_of_mem _ (before target depends)
    · exact List.mem_cons_of_mem _ (ih member)

/-- No node that is done begins an endless way of dependences. -/
theorem Supported.acc {done : List (KeyPath × Option String)}
    (supported : Supported surroundings tree done) {path : KeyPath} (member : path ∈ done.map Prod.fst) :
    Acc (fun target path => Depends surroundings tree path target) path := by
  induction supported generalizing path with
  | nil => cases member
  | cons stands fresh before gets supported ih =>
    rcases List.mem_cons.1 member with rfl | member
    · exact ⟨_, fun target depends => ih (before target depends)⟩
    · exact ih member

end LayeredConfig.Interpolation
