import LayeredConfig.Proofs.Tree.CanonicalForm
import LayeredConfig.Proofs.Yaml.RoundTrip

/-!
# One text for each tree

Two trees have one canonical text if and only if they differ at most in the order of entries: `write_eq_iff_alike`. The
text shows the entries in order only, and reading it gives the ordered form back, so that trees with one text have one
ordered form.
-/

namespace LayeredConfig.Yaml

/-- The canonical texts of two trees are the same if and only if the trees are alike. -/
theorem write_eq_iff_alike {a b : Tree} (distinct : a.HasDistinctKeys) (distinct' : b.HasDistinctKeys)
    (writable : a.IsWritable) (writable' : b.IsWritable) :
    ∃ textA textB, write a = .ok textA ∧ write b = .ok textB ∧ (textA = textB ↔ a.Alike b) := by
  obtain ⟨textA, writes, reads, -⟩ := read_write a "" distinct writable
  obtain ⟨textB, writes', reads', -⟩ := read_write b "" distinct' writable'
  refine ⟨textA, textB, writes, writes', ?_⟩
  rw [Tree.alike_iff_ordered_eq distinct distinct']
  constructor
  · rintro rfl
    exact Except.ok.inj (reads.symm.trans reads')
  · intro same
    have texts : write a = write b := by rw [write_eq writable, write_eq writable', same]
    exact Except.ok.inj (writes.symm.trans (texts.trans writes'))

/-- `thornyTree` with the entries of both mappings in another order. -/
def reorderedTree : Tree :=
  .mapping [
    ("Plain key", .string "two  words"),
    ("a.b", .mapping [("...", .string " plain words "), ("", .bool true), ("~", .null)]),
    ("- x: y", .sequence [.double (Binary64.zero true), .string "null", .string "-12", .string "1e5",
      .mapping [], .sequence [.sequence [], .string ""], .int (-5), .string "# \u2028\t\"\\\x00"])]

/-- `thornyTree` with one string turned into the number that it looks like. -/
def numberTree : Tree :=
  .mapping [
    ("- x: y", .sequence [.double (Binary64.zero true), .string "null", .int (-12), .string "1e5",
      .mapping [], .sequence [.sequence [], .string ""], .int (-5), .string "# \u2028\t\"\\\x00"]),
    ("a.b", .mapping [("~", .null), ("", .bool true), ("...", .string " plain words ")]),
    ("Plain key", .string "two  words")]

theorem alike_reorderedTree : thornyTree.Alike reorderedTree := by
  have inner : Tree.Alike (.mapping [("~", .null), ("", .bool true), ("...", .string " plain words ")])
      (.mapping [("...", .string " plain words "), ("", .bool true), ("~", .null)]) := by
    refine ⟨fun key => List.Perm.mem_iff (by decide), ⟨_, rfl, ?_⟩, ⟨_, rfl, ?_⟩, ⟨_, rfl, ?_⟩, trivial⟩ <;> rfl
  refine ⟨fun key => List.Perm.mem_iff (by decide), ⟨_, rfl, ?_⟩, ⟨_, rfl, inner⟩, ⟨_, rfl, ?_⟩, trivial⟩
  · exact Tree.Alike.refl (by decide)
  · rfl

theorem write_eq_iff_alike_thornyTree :
    (∃ text, write thornyTree = .ok text ∧ write reorderedTree = .ok text)
      ∧ ∃ text other, write thornyTree = .ok text ∧ write numberTree = .ok other ∧ text ≠ other := by
  have distinct : thornyTree.HasDistinctKeys := by decide
  have writable : thornyTree.IsWritable := by decide +kernel
  constructor
  · obtain ⟨text, other, writes, writes', same⟩ :=
      write_eq_iff_alike (b := reorderedTree) distinct (by decide) writable (by decide +kernel)
    exact ⟨text, writes, same.2 alike_reorderedTree ▸ writes'⟩
  · obtain ⟨text, other, writes, writes', same⟩ :=
      write_eq_iff_alike (b := numberTree) distinct (by decide) writable (by decide +kernel)
    refine ⟨text, other, writes, writes', fun equal => ?_⟩
    obtain ⟨-, ⟨other, found, alike⟩, -⟩ := same.1 equal
    cases found
    obtain ⟨-, -, number, -⟩ := alike
    cases number

end LayeredConfig.Yaml
