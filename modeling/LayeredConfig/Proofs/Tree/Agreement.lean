import LayeredConfig.Proofs.Tree.CanonicalForm
import LayeredConfig.Proofs.Tree.Lens

/-!
# Trees that agree along every path

Trees that `Agree` lead to the same along every path, mappings apart, and are alike: they can differ in the order of entries
only. Assignments at paths of which neither leads through the other one have room in either order
(`assign_assign_succeeds_iff`) and leave trees that agree (`agree_assign_assign`): what stands on the way to both paths is a
mapping before and after.
-/

namespace LayeredConfig.Tree

variable {a b c tree value node : Tree} {add : Bool} {key : String} {path other place : KeyPath}
  {xs ys : List (String × Tree)}

/-! ## Trees that agree along every path -/

/-- A path leads to the same node of two trees, or to mappings in both. -/
def AgreeAt (a b : Tree) (path : KeyPath) : Prop :=
  a.find path = b.find path ∨ (∃ xs, a.find path = some (.mapping xs)) ∧ ∃ ys, b.find path = some (.mapping ys)

/-- Two trees agree along every path. -/
def Agree (a b : Tree) : Prop :=
  ∀ path, AgreeAt a b path

theorem Agree.symm (agree : a.Agree b) : b.Agree a :=
  fun path => (agree path).imp Eq.symm And.symm

theorem Agree.trans (first : a.Agree b) (second : b.Agree c) : a.Agree c := by
  intro path
  rcases first path with same | ⟨left, middle⟩
  · rw [AgreeAt, same]
    exact second path
  · rcases second path with same | ⟨-, right⟩
    · exact .inr ⟨left, same ▸ middle⟩
    · exact .inr ⟨left, right⟩

theorem Agree.eq_or_mapping (agree : a.Agree b) : a = b ∨ (∃ xs, a = .mapping xs) ∧ ∃ ys, b = .mapping ys := by
  have root := agree []
  simpa only [AgreeAt, find_nil, Option.some.injEq] using root

/-- Mappings that agree have values that agree under the same keys. -/
theorem Agree.entry (agree : (Tree.mapping xs).Agree (.mapping ys)) (found : xs.lookup key = some a) :
    ∃ b, ys.lookup key = some b ∧ a.Agree b := by
  have below (rest : KeyPath) := agree (key :: rest)
  simp only [AgreeAt, find_mapping_cons, found, Option.bind_some] at below
  cases there : ys.lookup key with
  | none =>
    rcases below [] with same | ⟨-, ys, stands⟩
    · rw [there, find_nil] at same
      cases same
    · rw [there] at stands
      cases stands
  | some b =>
    simp only [there, Option.bind_some] at below
    exact ⟨b, rfl, below⟩

theorem Agree.mem_keys (agree : (Tree.mapping xs).Agree (.mapping ys)) (member : key ∈ xs.map Prod.fst) :
    key ∈ ys.map Prod.fst := by
  cases found : xs.lookup key with
  | none => exact absurd member (Entries.lookup_eq_none_iff.1 found)
  | some a =>
    obtain ⟨b, there, -⟩ := agree.entry found
    exact List.mem_map_of_mem (Entries.mem_of_lookup there)

/-- Trees that agree along every path are alike. -/
theorem Agree.alike (agree : a.Agree b) (distinct : a.HasDistinctKeys) : a.Alike b := by
  induction madeOf_of_hasDistinctKeys a distinct generalizing b with
  | @scalar node leaf =>
    rcases agree.eq_or_mapping with rfl | ⟨⟨xs, rfl⟩, -⟩
    · exact .refl distinct
    · cases leaf
  | sequence =>
    rcases agree.eq_or_mapping with rfl | ⟨⟨xs, same⟩, -⟩
    · exact .refl distinct
    · cases same
  | @mapping xs nodup _ _ ih =>
    rcases agree.eq_or_mapping with rfl | ⟨-, ys, rfl⟩
    · exact .refl distinct
    · refine ⟨fun key => ⟨agree.mem_keys, agree.symm.mem_keys⟩, entriesAlike_iff.2 fun key value member => ?_⟩
      obtain ⟨other, there, inner⟩ := agree.entry ((Entries.lookup_eq_some_iff nodup).2 member)
      exact ⟨other, there, ih _ member inner (entriesHaveDistinctKeys_iff.1 distinct.2 _ member)⟩

/-! ## Paths apart -/

/-- Neither path leads through the other one. -/
def Apart (path other : KeyPath) : Prop :=
  ¬path <+: other ∧ ¬other <+: path

instance (path other : KeyPath) : Decidable (Apart path other) :=
  inferInstanceAs (Decidable (_ ∧ _))

theorem Apart.symm (apart : Apart path other) : Apart other path :=
  And.symm apart

theorem Apart.ne_nil (apart : Apart path other) : path ≠ [] :=
  fun empty => apart.1 (empty ▸ List.nil_prefix)

theorem Apart.find_assign (apart : Apart path other) : (tree.assign path value add).tree.find other = tree.find other :=
  find_assign_of_apart apart.1 apart.2

/-- What stands at a path stands in mappings all the way. -/
theorem exists_mapping_of_find (found : tree.find path = some node) (above : other <+: path) (strict : ¬path <+: other) :
    ∃ entries, tree.find other = some (.mapping entries) := by
  obtain ⟨rest, rfl⟩ := above
  rw [find_append] at found
  obtain ⟨inner, there, inside⟩ := Option.bind_eq_some_iff.1 found
  cases rest with
  | nil =>
    rw [List.append_nil] at strict
    exact absurd List.prefix_rfl strict
  | cons key rest =>
    obtain ⟨entries, -, rfl, -⟩ := find_cons_eq_some inside
    exact ⟨entries, there⟩

/-- Trees that hold the same node at a path agree above and below it. -/
theorem agreeAt_of_find (found : a.find path = some node) (found' : b.find path = some node)
    (near : ¬Apart path place) : AgreeAt a b place := by
  by_cases below : path <+: place
  · obtain ⟨rest, rfl⟩ := below
    refine .inl ?_
    rw [find_append, find_append, found, found']
  · have above : place <+: path := not_not.1 fun side => near ⟨below, side⟩
    exact .inr ⟨exists_mapping_of_find found above below, exists_mapping_of_find found' above below⟩

/-! ## Assigning at two paths -/

/-- An assignment elsewhere neither clears the way to a path nor blocks it. -/
theorem blocked_assign_iff (works : (tree.assign path value add).failure = none) (apart : Apart path other) :
    (tree.assign path value add).tree.ground.Blocked other ↔ tree.ground.Blocked other := by
  have free := ((assign_succeeds_iff apart.ne_nil).1 works).1
  have placed := find_of_assign works
  rw [← find_ground apart.ne_nil] at placed
  refine exists_congr fun front => exists_congr fun node => and_congr_right fun above => and_congr_right fun _ => ?_
  have side : ¬path <+: front := fun below => apart.1 (below.trans above)
  by_cases shared : front <+: path
  · -- on the common part of the ways stand mappings before and after
    refine iff_of_false ?_ ?_
    · rintro ⟨found, noMapping⟩
      obtain ⟨entries, mapping⟩ := exists_mapping_of_find placed shared side
      cases mapping.symm.trans found
      cases noMapping
    · rintro ⟨found, noMapping⟩
      exact free ⟨front, node, shared, fun same => side (same ▸ List.prefix_rfl), found, noMapping⟩
  · have filled : front ≠ [] := fun empty => shared (empty ▸ List.nil_prefix)
    rw [find_ground filled, find_ground filled, find_assign_of_apart side shared]

/-- An assignment elsewhere neither makes room for an assignment nor takes it. -/
theorem assign_assign_succeeds_iff (value' : Tree) (add' : Bool)
    (works : (tree.assign path value add).failure = none) (apart : Apart path other) :
    ((tree.assign path value add).tree.assign other value' add').failure = none
      ↔ (tree.assign other value' add').failure = none := by
  have below := apart.symm.ne_nil
  rw [assign_succeeds_iff below, assign_succeeds_iff below, blocked_assign_iff works apart, find_ground below,
    find_ground below, apart.find_assign]

theorem agree_assign_assign {value' : Tree} {add' : Bool} (apart : Apart path other)
    (works : (tree.assign path value add).failure = none) (works' : (tree.assign other value' add').failure = none) :
    ((tree.assign path value add).tree.assign other value' add').tree.Agree
      ((tree.assign other value' add').tree.assign path value add).tree := by
  have last := find_of_assign ((assign_assign_succeeds_iff value' add' works apart).2 works')
  have last' := find_of_assign ((assign_assign_succeeds_iff value add works' apart.symm).2 works)
  intro place
  by_cases near : Apart path place
  · by_cases near' : Apart other place
    · refine .inl ?_
      rw [near'.find_assign, near.find_assign, near.find_assign, near'.find_assign]
    · refine agreeAt_of_find last ?_ near'
      rw [apart.find_assign]
      exact find_of_assign works'
  · refine agreeAt_of_find ?_ last' near
    rw [apart.symm.find_assign]
    exact find_of_assign works

/-! ## Assigning to trees that agree -/

theorem Agree.ground (agree : a.Agree b) : a.ground.Agree b.ground := by
  rcases agree.eq_or_mapping with rfl | ⟨⟨xs, rfl⟩, ys, rfl⟩
  · exact fun _ => .inl rfl
  · exact agree

theorem Agree.blocked (agree : a.Agree b) (blocked : a.Blocked path) : b.Blocked path := by
  obtain ⟨front, node, above, strict, found, noMapping⟩ := blocked
  rcases agree front with same | ⟨⟨xs, mapping⟩, -⟩
  · exact ⟨front, node, above, strict, same ▸ found, noMapping⟩
  · cases mapping.symm.trans found
    cases noMapping

theorem Agree.isSome_find (agree : a.Agree b) (path : KeyPath) : (a.find path).isSome = (b.find path).isSome := by
  rcases agree path with same | ⟨⟨xs, left⟩, ys, right⟩
  · rw [same]
  · rw [left, right]
    rfl

theorem ne_nil_of_assign (works : (tree.assign path value add).failure = none) : path ≠ [] := by
  rintro rfl
  cases works

/-- What can be assigned to a tree can be assigned to one that agrees with it, and then they agree still. -/
theorem Agree.assign (agree : a.Agree b) (works : (a.assign path value add).failure = none) :
    (b.assign path value add).failure = none ∧ (a.assign path value add).tree.Agree (b.assign path value add).tree := by
  have below := ne_nil_of_assign works
  have works' : (b.assign path value add).failure = none := by
    rw [assign_succeeds_iff below] at works ⊢
    rw [← agree.ground.isSome_find]
    exact works.imp (fun free blocked => free (agree.ground.symm.blocked blocked)) id
  refine ⟨works', fun place => ?_⟩
  by_cases apart : Apart path place
  · rw [AgreeAt, apart.find_assign, apart.find_assign]
    exact agree place
  · exact agreeAt_of_find (find_of_assign works) (find_of_assign works') apart

end LayeredConfig.Tree
