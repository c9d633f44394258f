import LayeredConfig.Proofs.Override.Stopped
import LayeredConfig.Proofs.Run.Regular
import LayeredConfig.Proofs.Tree.Agreement

/-!
# Overrides that are independent

Overrides at paths of which none leads through another one may be made in any order, `override_perm`: changing the order
step by step changes neither whether they can be made nor where a path leads in the end.
-/

namespace LayeredConfig.Tree

variable {a b tree after : Tree} {expression expression' : String} {expressions others : List String}

/-- Overrides that can all be made, with the tree that they leave. -/
def Makes (tree : Tree) (expressions : List String) (after : Tree) : Prop :=
  (tree.override expressions).failure = none ∧ (tree.override expressions).tree = after

theorem makes_cons_iff : tree.Makes (expression :: expressions) after
    ↔ ∃ change, Override.parse expression = .ok change ∧ (change.apply tree).failure = none
      ∧ (change.apply tree).tree.Makes expressions after := by
  constructor
  · intro makes
    obtain ⟨change, reads, works⟩ := applied_of_works makes.1
    rw [Makes, override_of_applied reads works] at makes
    exact ⟨change, reads, works, makes⟩
  · rintro ⟨change, reads, works, makes⟩
    rw [Makes, override_of_applied reads works]
    exact makes

/-- What overrides make of a tree agrees with what they make of one that agrees with it. -/
theorem Makes.of_agree (makes : a.Makes expressions after) (agree : a.Agree b) :
    ∃ after', b.Makes expressions after' ∧ after.Agree after' := by
  induction expressions generalizing a b with
  | nil =>
    obtain ⟨-, rfl⟩ := makes
    exact ⟨b, ⟨rfl, rfl⟩, agree⟩
  | cons expression rest ih =>
    obtain ⟨change, reads, works, makes⟩ := makes_cons_iff.1 makes
    obtain ⟨works', agree'⟩ := agree.assign works
    obtain ⟨after', makes', same⟩ := ih makes agree'
    exact ⟨after', makes_cons_iff.2 ⟨change, reads, works', makes'⟩, same⟩

/-- Expressions that are about paths apart, as far as they can be read. -/
def Independent (expression other : String) : Prop :=
  ∀ change change', Override.parse expression = .ok change → Override.parse other = .ok change' →
    Apart change.path change'.path

theorem Independent.symm (independent : Independent expression expression') : Independent expression' expression :=
  fun change change' reads reads' => (independent change' change reads' reads).symm

/-- What independent overrides make in one order agrees with what they make in another one. -/
theorem Makes.perm (makes : tree.Makes expressions after) (perm : expressions.Perm others)
    (independent : expressions.Pairwise Independent) : ∃ after', tree.Makes others after' ∧ after.Agree after' := by
  induction perm generalizing tree after with
  | nil => exact ⟨after, makes, fun _ => .inl rfl⟩
  | cons expression _ ih =>
    obtain ⟨change, reads, works, makes⟩ := makes_cons_iff.1 makes
    obtain ⟨after', makes', same⟩ := ih makes (List.pairwise_cons.1 independent).2
    exact ⟨after', makes_cons_iff.2 ⟨change, reads, works, makes'⟩, same⟩
  | swap expression expression' rest =>
    obtain ⟨change, reads, works, makes⟩ := makes_cons_iff.1 makes
    obtain ⟨change', reads', works', makes⟩ := makes_cons_iff.1 makes
    have apart := (List.pairwise_cons.1 independent).1 expression List.mem_cons_self change change' reads reads'
    have alone := (assign_assign_succeeds_iff change'.value change'.add works apart).1 works'
    obtain ⟨after', makes', same⟩ := makes.of_agree (agree_assign_assign apart works alone)
    have next := (assign_assign_succeeds_iff change.value change.add alone apart.symm).2 works
    have later := makes_cons_iff.2 ⟨change, reads, next, makes'⟩
    exact ⟨after', makes_cons_iff.2 ⟨change', reads', alone, later⟩, same⟩
  | trans first _ ih ih' =>
    obtain ⟨between, makes', same⟩ := ih makes independent
    obtain ⟨after', makes'', same'⟩ := ih' makes' (independent.perm first Independent.symm)
    exact ⟨after', makes'', same.trans same'⟩

theorem hasDistinctKeys_override (distinct : tree.HasDistinctKeys) (expressions : List String) :
    (tree.override expressions).tree.HasDistinctKeys := by
  refine override_preserves ⟨List.nodup_nil, trivial⟩ (fun tree _ change reads distinct => ?_) distinct expressions
  have inner := madeOf_of_hasDistinctKeys _ (Override.regular_parse reads).hasDistinctKeys
  exact ((madeOf_of_hasDistinctKeys tree distinct).assign inner (fun _ _ => trivial) change.add).hasDistinctKeys

/-- Independent overrides may be made in any order: they can be made in one if they can be made in another one, and the
trees that they leave then differ in the order of entries only. -/
theorem override_perm (perm : expressions.Perm others) (independent : expressions.Pairwise Independent)
    (distinct : tree.HasDistinctKeys) :
    ((tree.override expressions).failure = none ↔ (tree.override others).failure = none)
      ∧ ((tree.override expressions).failure = none →
        (tree.override expressions).tree.Alike (tree.override others).tree) := by
  refine ⟨⟨fun works => ?_, fun works => ?_⟩, fun works => ?_⟩
  · obtain ⟨after, makes, -⟩ := Makes.perm ⟨works, rfl⟩ perm independent
    exact makes.1
  · obtain ⟨after, makes, -⟩ := Makes.perm ⟨works, rfl⟩ perm.symm (independent.perm perm Independent.symm)
    exact makes.1
  · obtain ⟨after, ⟨-, rfl⟩, agree⟩ := Makes.perm ⟨works, rfl⟩ perm independent
    exact agree.alike (hasDistinctKeys_override distinct expressions)

/-- Two overrides whose paths are apart commute. -/
theorem override_comm (tree : Tree) {change change' : Override} (reads : Override.parse expression = .ok change)
    (reads' : Override.parse expression' = .ok change') (front : ¬change.path <+: change'.path)
    (back : ¬change'.path <+: change.path) (distinct : tree.HasDistinctKeys) :
    ((tree.override [expression, expression']).failure = none ↔ (tree.override [expression', expression]).failure = none)
      ∧ ((tree.override [expression, expression']).failure = none →
        (tree.override [expression, expression']).tree.Alike (tree.override [expression', expression]).tree) := by
  refine override_perm (.swap _ _ _) (List.pairwise_pair.2 fun first second found found' => ?_) distinct
  cases reads.symm.trans found
  cases reads'.symm.trans found'
  exact ⟨front, back⟩

theorem override_comm_trainerTree :
    (trainerTree.override ["+trainer.schedule.steps=5", "+trainer.schedule.rate=2"]).failure = none
      ∧ (trainerTree.override ["+trainer.schedule.rate=2", "+trainer.schedule.steps=5"]).failure = none
      ∧ (trainerTree.override ["+trainer.schedule.steps=5", "+trainer.schedule.rate=2"]).tree.Alike
        (trainerTree.override ["+trainer.schedule.rate=2", "+trainer.schedule.steps=5"]).tree
      ∧ (trainerTree.override ["+trainer.schedule.steps=5", "+trainer.schedule.rate=2"]).tree
        ≠ (trainerTree.override ["+trainer.schedule.rate=2", "+trainer.schedule.steps=5"]).tree := by
  have steps : Override.parse "+trainer.schedule.steps=5" = .ok ⟨["trainer", "schedule", "steps"], .int 5, true⟩ := by
    decide +kernel
  have rate : Override.parse "+trainer.schedule.rate=2" = .ok ⟨["trainer", "schedule", "rate"], .int 2, true⟩ := by
    decide +kernel
  have works : (trainerTree.override ["+trainer.schedule.steps=5", "+trainer.schedule.rate=2"]).failure = none := by
    decide +kernel
  obtain ⟨both, alike⟩ := override_comm trainerTree steps rate (by decide) (by decide) (by decide)
  exact ⟨works, both.1 works, alike works, by decide +kernel⟩

end LayeredConfig.Tree
