import LayeredConfig.Override.Apply
import LayeredConfig.Proofs.Tree.Lens

/-!
# Changes that are refused

A change that is refused leaves the tree as it was, a null root apart, which may have become an empty mapping: nothing that
an assignment makes on its way is there if the assignment fails. A list of overrides therefore ends with what the overrides
before the refused one have made of the tree, `failed_changes_leave`.
-/

namespace LayeredConfig

namespace Tree

variable {value tree after : Tree} {add : Bool} {path : KeyPath} {entries : List (String × Tree)} {error : Error}

/-- The tree is as it was, or an empty mapping has taken the place of a null root. -/
def Spared (before after : Tree) : Prop :=
  after = before ∨ before = .null ∧ after = .mapping []

theorem Spared.eq (spared : tree.Spared after) (filled : tree ≠ .null) : after = tree :=
  spared.resolve_right fun null => filled null.1

/-! ## One assignment -/

/-- An assignment that fails has changed no entries: where it has made a mapping it cannot fail any more. -/
theorem assignEntries_of_failure (below : path ≠ []) (fails : (assignEntries value add path entries).2 = some error) :
    (assignEntries value add path entries).1 = entries := by
  fun_induction assignEntries value add path entries with
  | case1 | case2 | case3 | case6 | case8 => rfl
  | case4 => cases fails
  | case5 key next rest entries absent fresh children failure assigned =>
    have works := assignEntries_empty value (List.cons_ne_nil next rest)
    rw [← fresh, assigned] at works
    cases works.symm.trans fails
  | case7 key next rest entries children found inner failure assigned ih =>
    rw [assigned] at ih
    cases ih (List.cons_ne_nil _ _) fails
    exact Entries.put_of_lookup found

theorem spared_of_assign (fails : (tree.assign path value add).failure = some error) :
    tree.Spared (tree.assign path value add).tree := by
  unfold assign at fails ⊢
  split at fails
  · next empty =>
    rw [if_pos empty]
    exact .inl rfl
  · next filled =>
    have below : path ≠ [] := fun empty => filled (List.isEmpty_iff.2 empty)
    rw [if_neg filled]
    split at fails
    · exact .inr ⟨rfl, congrArg mapping (assignEntries_of_failure below fails)⟩
    · exact .inl (congrArg mapping (assignEntries_of_failure below fails))
    · exact .inl rfl

theorem assign_ne_null (filled : tree ≠ .null) : (tree.assign path value add).tree ≠ .null := by
  unfold assign
  split
  · exact filled
  · split
    · intro null
      cases null
    · intro null
      cases null
    · exact filled

/-! ## Overrides one after another -/

/-- An expression that stops the overrides at a tree: it cannot be read, or what it says cannot be done. -/
inductive Refuses (tree : Tree) (expression : String) : Error → Prop
  | unread {error : Error} (unreadable : Override.parse expression = .error error) : Refuses tree expression error
  | undone {error : Error} {change : Override} (reads : Override.parse expression = .ok change)
      (fails : (change.apply tree).failure = some error) : Refuses tree expression error

variable {expression : String} {rest front expressions : List String} {change : Override}

theorem override_of_applied (reads : Override.parse expression = .ok change)
    (works : (change.apply tree).failure = none) :
    tree.override (expression :: rest)
      = ⟨((change.apply tree).tree.override rest).tree, change :: ((change.apply tree).tree.override rest).applied,
        ((change.apply tree).tree.override rest).failure⟩ := by
  rw [override, reads]
  dsimp only
  cases applied : change.apply tree with
  | mk after failure =>
    rw [applied] at works
    cases works
    rfl

theorem override_of_refuses (rest : List String) (refuses : tree.Refuses expression error) :
    ∃ after, tree.Spared after ∧ tree.override (expression :: rest) = ⟨after, [], some error⟩ := by
  rw [override]
  cases refuses with
  | unread unreadable =>
    rw [unreadable]
    exact ⟨tree, .inl rfl, rfl⟩
  | @undone change reads fails =>
    have spared : tree.Spared (change.apply tree).tree := spared_of_assign fails
    rw [reads]
    dsimp only
    cases applied : change.apply tree with
    | mk after failure =>
      rw [applied] at fails spared
      cases fails
      exact ⟨after, spared, rfl⟩

/-- The first expression is applied or refused. -/
theorem applied_or_refuses (tree : Tree) (expression : String) :
    (∃ change, Override.parse expression = .ok change ∧ (change.apply tree).failure = none)
      ∨ ∃ error, tree.Refuses expression error := by
  cases reads : Override.parse expression with
  | error error => exact .inr ⟨error, .unread reads⟩
  | ok change =>
    cases done : (change.apply tree).failure with
    | none => exact .inl ⟨change, rfl, done⟩
    | some error => exact .inr ⟨error, .undone reads done⟩

/-- The first of overrides that are all made is made. -/
theorem applied_of_works (works : (tree.override (expression :: rest)).failure = none) :
    ∃ change, Override.parse expression = .ok change ∧ (change.apply tree).failure = none := by
  rcases applied_or_refuses tree expression with applied | ⟨error, refuses⟩
  · exact applied
  · obtain ⟨after, -, ends⟩ := override_of_refuses rest refuses
    rw [ends] at works
    cases works

/-- Overrides that fail were stopped by one of them, with the tree that those before it have made. -/
theorem stopped_override (fails : (tree.override expressions).failure = some error) :
    ∃ front expression back before, expressions = front ++ expression :: back
      ∧ tree.override front = ⟨before, (tree.override expressions).applied, none⟩
      ∧ before.Refuses expression error ∧ before.Spared (tree.override expressions).tree := by
  induction expressions generalizing tree with
  | nil => cases fails
  | cons expression rest ih =>
    rcases applied_or_refuses tree expression with ⟨change, reads, works⟩ | ⟨error', refuses⟩
    · rw [override_of_applied reads works] at fails ⊢
      obtain ⟨front, stop, back, before, rfl, made, refuses, spared⟩ := ih fails
      refine ⟨expression :: front, stop, back, before, rfl, ?_, refuses, spared⟩
      rw [override_of_applied reads works, made]
    · obtain ⟨after, spared, ends⟩ := override_of_refuses rest refuses
      rw [ends] at fails ⊢
      cases fails
      exact ⟨[], expression, rest, tree, rfl, rfl, refuses, spared⟩

theorem length_applied (works : (tree.override expressions).failure = none) :
    (tree.override expressions).applied.length = expressions.length := by
  induction expressions generalizing tree with
  | nil => rfl
  | cons expression rest ih =>
    obtain ⟨change, reads, done⟩ := applied_of_works works
    rw [override_of_applied reads done] at works ⊢
    exact congrArg (· + 1) (ih works)

/-- What an empty mapping has and every override keeps holds of the tree that overrides leave. -/
theorem override_preserves {holds : Tree → Prop} (empty : holds (.mapping []))
    (keeps : ∀ tree expression change, Override.parse expression = .ok change → holds tree →
      holds (change.apply tree).tree)
    (start : holds tree) (expressions : List String) : holds (tree.override expressions).tree := by
  induction expressions generalizing tree with
  | nil => exact start
  | cons expression rest ih =>
    rcases applied_or_refuses tree expression with ⟨change, reads, works⟩ | ⟨error, refuses⟩
    · rw [override_of_applied reads works]
      exact ih (keeps tree expression change reads start)
    · obtain ⟨after, rfl | ⟨-, rfl⟩, ends⟩ := override_of_refuses rest refuses
      · rw [ends]
        exact start
      · rw [ends]
        exact empty

/-- Changes that fail leave nothing behind. An assignment that fails leaves its tree as it was, or an empty mapping in the
place of a null root. Overrides that fail on another root have stopped at the expression behind those that were applied,
and leave exactly the tree that these alone make. -/
theorem failed_changes_leave (tree : Tree) :
    (∀ path value add error, (tree.assign path value add).failure = some error →
      (tree.assign path value add).tree = tree ∨ tree = .null ∧ (tree.assign path value add).tree = .mapping [])
    ∧ (tree ≠ .null → ∀ expressions error, (tree.override expressions).failure = some error →
      ∃ position expression, position = (tree.override expressions).applied.length
        ∧ expressions[position]? = some expression
        ∧ (tree.override (expressions.take position)).tree.Refuses expression error
        ∧ tree.override (expressions.take position)
          = ⟨(tree.override expressions).tree, (tree.override expressions).applied, none⟩) := by
  refine ⟨fun path value add error => spared_of_assign, fun filled expressions error fails => ?_⟩
  obtain ⟨front, expression, back, before, whole, made, refuses, spared⟩ := stopped_override fails
  have stays : before ≠ .null := by
    have kept := @override_preserves tree (· ≠ .null) nofun (fun _ _ _ _ => assign_ne_null) filled front
    rwa [made] at kept
  have length : front.length = (tree.override expressions).applied.length := by
    have works : (tree.override front).failure = none := by rw [made]
    rw [← length_applied works, made]
  have first : expressions.take front.length = front := by rw [whole, List.take_left]
  refine ⟨front.length, expression, length, ?_, ?_, ?_⟩
  · rw [whole, List.getElem?_append_right (Nat.le_refl _), Nat.sub_self, List.getElem?_cons_zero]
  · rwa [first, made]
  · rw [first, made, spared.eq stays]

theorem failed_changes_leave_trainerTree :
    (trainerTree.override ["+trainer.rate=1", "+seed.start.late=2", "seed=3"]).failure
        = some (.componentNotMapping "seed" .int)
      ∧ (trainerTree.override ["+trainer.rate=1", "+seed.start.late=2", "seed=3"]).tree
        = (trainerTree.override ["+trainer.rate=1"]).tree
      ∧ (trainerTree.assign ["seed", "start", "late"] (.int 2) true).tree = trainerTree
      ∧ (Tree.null.assign ["seed"] (.int 2) false).tree = .mapping [] := by
  obtain ⟨single, several⟩ := failed_changes_leave trainerTree
  have fails : (trainerTree.override ["+trainer.rate=1", "+seed.start.late=2", "seed=3"]).failure
      = some (.componentNotMapping "seed" .int) := by decide +kernel
  have one : (trainerTree.override ["+trainer.rate=1", "+seed.start.late=2", "seed=3"]).applied.length = 1 := by
    decide +kernel
  obtain ⟨position, expression, rfl, -, -, made⟩ := several nofun _ _ fails
  rw [one] at made
  refine ⟨fails, (congrArg Application.tree made).symm, ?_, ?_⟩
  · exact (single ["seed", "start", "late"] (.int 2) true _ rfl).resolve_right nofun
  · exact ((failed_changes_leave .null).1 ["seed"] (.int 2) false _ rfl).resolve_left nofun |>.2

end Tree

end LayeredConfig
