import LayeredConfig.Proofs.Tree.MadeOf
import LayeredConfig.Proofs.Tree.Reordering
import Mathlib.Data.List.Nodup

/-!
# The ordered form is canonical

Trees whose mappings hold no key twice are alike if and only if they have the same ordered form, `alike_iff_ordered_eq`.
The ordered entries of mappings that are alike are the same pairs, and sorting leaves one order for them.
-/

namespace LayeredConfig

namespace Entries

variable {α : Type} {entries others : List (String × α)}

/-- The order in which entries with distinct keys are given does not matter to sorting. -/
theorem sortByKey_of_perm (distinct : (entries.map Prod.fst).Nodup) (perm : entries.Perm others) :
    sortByKey entries = sortByKey others := by
  have sorted := (sortByKey_perm entries).trans (perm.trans (sortByKey_perm others).symm)
  refine sorted.eq_of_pairwise (fun a b member member' le ge => ?_) (pairwise_sortByKey entries)
    (pairwise_sortByKey others)
  have known := (sortByKey_perm entries).mem_iff.1 member
  have known' := perm.mem_iff.2 ((sortByKey_perm others).mem_iff.1 member')
  simp only [Bool.not_eq_true', decide_eq_false_iff_not, String.not_lt] at le ge
  exact List.inj_on_of_nodup_map distinct known known' (String.le_antisymm le ge)

end Entries

namespace Tree

variable {a b : Tree}

mutual

theorem Alike.trans : {a b c : Tree} → a.Alike b → b.Alike c → a.Alike c
  | .null, _, _, first, second => by cases first; exact second
  | .bool _, _, _, first, second => by cases first; exact second
  | .int _, _, _, first, second => by cases first; exact second
  | .double _, _, _, first, second => by cases first; exact second
  | .string _, _, _, first, second => by cases first; exact second
  | .sequence _, .sequence _, .sequence _, first, second => ItemsAlike.trans first second
  | .mapping _, .mapping _, .mapping _, ⟨keys, first⟩, ⟨keys', second⟩ =>
    ⟨fun key => (keys key).trans (keys' key), EntriesAlike.trans first second⟩

theorem ItemsAlike.trans : {xs ys zs : List Tree} → ItemsAlike xs ys → ItemsAlike ys zs → ItemsAlike xs zs
  | [], _, _, first, second => by cases first; exact second
  | _ :: _, _ :: _, _ :: _, ⟨first, below⟩, ⟨second, below'⟩ => ⟨first.trans second, below.trans below'⟩

theorem EntriesAlike.trans : {xs ys zs : List (String × Tree)} → EntriesAlike xs ys → EntriesAlike ys zs →
    EntriesAlike xs zs
  | [], _, _, _, _ => trivial
  | (key, _) :: _, _, _, ⟨⟨y, found, first⟩, below⟩, others => by
    obtain ⟨z, found', second⟩ := entriesAlike_iff.1 others key y (Entries.mem_of_lookup found)
    exact ⟨⟨z, found', first.trans second⟩, below.trans others⟩

end

mutual

/-- Trees that are alike have one ordered form. -/
theorem ordered_of_alike : {a b : Tree} → a.Alike b → a.HasDistinctKeys → b.HasDistinctKeys → a.ordered = b.ordered
  | .null, _, alike, _, _ => by cases alike; rfl
  | .bool _, _, alike, _, _ => by cases alike; rfl
  | .int _, _, alike, _, _ => by cases alike; rfl
  | .double _, _, alike, _, _ => by cases alike; rfl
  | .string _, _, alike, _, _ => by cases alike; rfl
  | .sequence _, .sequence _, alike, distinct, distinct' =>
    congrArg sequence (itemsOrdered_of_alike alike distinct distinct')
  | .mapping xs, .mapping ys, ⟨keys, alike⟩, ⟨distinct, below⟩, ⟨distinct', below'⟩ => by
    have same := ordered_values_of_alike alike below below'
    rw [← keys_entriesOrdered] at distinct distinct'
    refine congrArg mapping (Entries.sortByKey_of_perm distinct ?_)
    refine (List.perm_ext_iff_of_nodup (.of_map _ distinct) (.of_map _ distinct')).2 fun entry => ?_
    simp only [entriesOrdered_eq_map, List.mem_map]
    constructor
    · rintro ⟨⟨key, x⟩, member, rfl⟩
      obtain ⟨y, member', forms⟩ := same key x member
      exact ⟨(key, y), member', by rw [forms]⟩
    · rintro ⟨⟨key, y⟩, member, rfl⟩
      obtain ⟨⟨key, x⟩, member', rfl⟩ := List.mem_map.1 ((keys key).2 (List.mem_map_of_mem member))
      obtain ⟨y', member'', forms⟩ := same key x member'
      rw [keys_entriesOrdered] at distinct'
      cases List.inj_on_of_nodup_map distinct' member member'' rfl
      exact ⟨(key, x), member', by rw [forms]⟩

theorem itemsOrdered_of_alike : {xs ys : List Tree} → ItemsAlike xs ys → ItemsHaveDistinctKeys xs →
    ItemsHaveDistinctKeys ys → itemsOrdered xs = itemsOrdered ys
  | [], _, alike, _, _ => by cases alike; rfl
  | _ :: _, _ :: _, ⟨alike, below⟩, ⟨distinct, rest⟩, ⟨distinct', rest'⟩ => by
    rw [itemsOrdered, itemsOrdered, ordered_of_alike alike distinct distinct', itemsOrdered_of_alike below rest rest']

/-- Under each key stands another value with the same ordered form. -/
theorem ordered_values_of_alike : {xs ys : List (String × Tree)} → EntriesAlike xs ys → EntriesHaveDistinctKeys xs →
    EntriesHaveDistinctKeys ys → ∀ key x, (key, x) ∈ xs → ∃ y, (key, y) ∈ ys ∧ x.ordered = y.ordered
  | [], _, _, _, _ => nofun
  | (first, value) :: _, _, ⟨⟨other, found, alike⟩, below⟩, ⟨distinct, rest⟩, distinct' => fun key x member => by
    rcases List.mem_cons.1 member with same | member
    · have known := Entries.mem_of_lookup found
      cases same
      exact ⟨other, known, ordered_of_alike alike distinct (entriesHaveDistinctKeys_iff.1 distinct' _ known)⟩
    · exact ordered_values_of_alike below rest distinct' key x member

end

/-- Trees are alike if and only if they have one ordered form. -/
theorem alike_iff_ordered_eq (distinct : a.HasDistinctKeys) (distinct' : b.HasDistinctKeys) :
    a.Alike b ↔ a.ordered = b.ordered := by
  refine ⟨fun alike => ordered_of_alike alike distinct distinct', fun same => ?_⟩
  have back := (alike_ordered b distinct').symm distinct' (hasDistinctKeys_ordered b distinct')
  rw [← same] at back
  exact (alike_ordered a distinct).trans back

theorem Alike.refl (distinct : a.HasDistinctKeys) : a.Alike a :=
  (alike_iff_ordered_eq distinct distinct).2 rfl

end Tree

end LayeredConfig
