import LayeredConfig.Proofs.Yaml.LexingRows
import LayeredConfig.Proofs.Yaml.TreeEvents
import LayeredConfig.Yaml.Read

/-!
# The round trip of canonical texts

`read_write`: the canonical text of a tree is read as the tree with its entries in order, which is alike the tree.
The tree must not hold a key twice, and every scalar and key of it must be one that can be written and read back:
doubles finite, no character that YAML refuses even in quotes, no integer numeral among the texts that is too long to
be read, and no key whose text is too long for a key.
-/

namespace LayeredConfig

namespace Yaml

/-! ## From events to the tree -/

namespace Walk

variable {source : String} {fault : Fault}

theorem run_cons {v w : Walk} {event : Event} {more : List Event}
    (steps : v.step source event = .ok w) :
    v.run source fault (event :: more) = w.run source fault more := by
  rw [run, steps]
  rfl

theorem run_scalar {written : Written} {node : Tree} {frames : List Frame} {walk : Walk}
    {more : List Event}
    (back : Scalar.ReadsBack written node) (delivers : deliver source node frames = .ok walk) :
    (Walk.inside frames).run source fault (written.event :: more) = walk.run source fault more := by
  refine run_cons ?_
  show (do
    let node ← scalarNode {} written.text written.style
    deliver source node frames) = _
  rw [back.read]
  exact delivers

mutual

/-- The events of a node build that node where it belongs. -/
theorem run_nodeEvents {frames : List Frame} {walk : Walk} {more : List Event} : (tree : Tree) → tree.IsWritable →
    tree.HasDistinctKeys → deliver source tree frames = .ok walk →
    (Walk.inside frames).run source fault (nodeEvents tree ++ more) = walk.run source fault more
  | .null, writable, _, delivers => run_scalar (Scalar.readsBack_ofScalar writable) delivers
  | .bool _, writable, _, delivers => run_scalar (Scalar.readsBack_ofScalar writable) delivers
  | .int _, writable, _, delivers => run_scalar (Scalar.readsBack_ofScalar writable) delivers
  | .double _, writable, _, delivers => run_scalar (Scalar.readsBack_ofScalar writable) delivers
  | .string _, writable, _, delivers => run_scalar (Scalar.readsBack_ofScalar writable) delivers
  | .sequence items, writable, distinct, delivers => by
    rw [nodeEvents, List.cons_append, List.append_assoc]
    rw [run_cons (w := .inside (.sequence [] :: frames)) rfl, run_itemEvents items writable distinct,
      List.append_nil, List.cons_append]
    refine run_cons ?_
    show deliver source (.sequence items.reverse.reverse) frames = _
    rw [List.reverse_reverse, delivers]
  | .mapping entries, writable, distinct, delivers => by
    rw [nodeEvents, List.cons_append, List.append_assoc]
    rw [run_cons (w := .inside (.mapping [] none :: frames)) rfl,
      run_entryEvents [] entries writable distinct.2 distinct.1]
    exact run_cons delivers

/-- The events of items add those items. -/
theorem run_itemEvents {frames : List Frame} {done : List Tree} {more : List Event} :
    (items : List Tree) → Tree.ItemsAreWritable items → Tree.ItemsHaveDistinctKeys items →
    (Walk.inside (.sequence done :: frames)).run source fault (itemEvents items ++ more)
      = (Walk.inside (.sequence (items.reverse ++ done) :: frames)).run source fault more
  | [], _, _ => rfl
  | item :: rest, ⟨writable, others⟩, ⟨distinct, below⟩ => by
    rw [itemEvents, List.append_assoc, run_nodeEvents item writable distinct rfl,
      run_itemEvents rest others below, List.reverse_cons, List.append_assoc]
    rfl

/-- The events of entries add those entries, if their keys are new. -/
theorem run_entryEvents {frames : List Frame} {more : List Event} (done : List (String × Tree)) :
    (entries : List (String × Tree)) → Tree.EntriesAreWritable entries →
    Tree.EntriesHaveDistinctKeys entries → ((done ++ entries).map Prod.fst).Nodup →
    (Walk.inside (.mapping done none :: frames)).run source fault (entryEvents entries ++ more)
      = (Walk.inside (.mapping (done ++ entries) none :: frames)).run source fault more
  | [], _, _, _ => by
    rw [List.append_nil]
    rfl
  | (key, value) :: rest, ⟨keyWritable, writable, others⟩, ⟨distinct, below⟩, keys => by
    have back := Scalar.readsBack_ofText keyWritable.text true
    rw [String.ofList_toList] at back
    have absent : key ∉ done.map Prod.fst := by
      rw [List.map_append, List.nodup_append] at keys
      intro member
      exact keys.2.2 key member key (List.mem_cons_self) rfl
    have split : done ++ (key, value) :: rest = done ++ [(key, value)] ++ rest := by simp
    rw [entryEvents, List.cons_append, List.append_assoc, run_scalar back rfl,
      run_nodeEvents value writable distinct rfl, Entries.put_of_not_mem absent, split]
    rw [split] at keys
    exact run_entryEvents _ rest others below keys

end

end Walk

/-- The events of a document of one node describe that node. -/
theorem treeOfEvents_nodeEvents {tree : Tree} (source : String) (writable : tree.IsWritable)
    (distinct : tree.HasDistinctKeys) :
    treeOfEvents source (.streamStart :: .documentStart :: (nodeEvents tree ++ [.documentEnd, .streamEnd]))
      none = .ok tree := by
  unfold treeOfEvents
  rw [Walk.run_cons (w := .beforeDocument) rfl, Walk.run_cons (w := .inside []) rfl,
    Walk.run_nodeEvents tree writable distinct rfl]
  rfl

/-! ## From the text to the tree -/

/-- The text of a node whose entries are in order. -/
def orderedText (tree : Tree) : List Char :=
  match cell? tree with
  | some cell => cell.chars ++ ['\n']
  | none => rowsText (childRows 0 tree)

theorem firstIndent_childRows (tree : Tree) : firstIndent (childRows 0 tree) = 0 := by
  refine Nat.le_zero.1 ?_
  cases tree with
  | sequence items =>
    have first : firstIndent (itemRows 0 items ++ []) ≤ 0 := firstIndent_itemRows (Nat.le_refl 0) items
    rwa [List.append_nil] at first
  | mapping entries =>
    have first : firstIndent (entryRows 0 entries ++ []) ≤ 0 :=
      firstIndent_entryRows (Nat.le_refl 0) entries
    rwa [List.append_nil] at first
  | null | bool | int | double | string => exact Nat.le_refl 0

/-- The text of a tree is cut into its tokens. -/
theorem tokens_orderedText {tree : Tree} (writable : tree.IsWritable) :
    tokens (orderedText tree) = (.streamStart :: (blockTokens tree ++ [.streamEnd]), none) := by
  unfold orderedText
  cases found : cell? tree with
  | some cell =>
    obtain ⟨sound, printable⟩ := isSound_cell? writable found
    rw [blockTokens_of_cell? found]
    refine tokens_cell sound ?_
    rw [List.all_append, printable]
    rfl
  | none =>
    have noRows : RowsSound [] := trivial
    have noneOpen : ∀ innermost, ([] : List Nat).head? = some innermost → innermost < 0 := nofun
    have sound := rowsSound_childRows (Nat.le_refl 0) noRows tree writable
    have cuts : rowTokens [] (childRows 0 tree ++ []) = blockTokens tree ++ rowTokens [] [] :=
      rowTokens_childRows noneOpen (Or.inr rfl) tree found
    rw [List.append_nil] at sound cuts
    have printable := printable_rowsText (printable_childRows 0 tree writable)
    have tokensOf := tokens_rows sound (firstIndent_childRows tree) printable
    rw [cuts] at tokensOf
    exact tokensOf

/-- The text of a tree is read as the tree. -/
theorem read_orderedText {tree : Tree} (source : String) (writable : tree.IsWritable)
    (distinct : tree.HasDistinctKeys) : read source (orderedText tree) = .ok tree := by
  unfold read
  rw [tokens_orderedText writable]
  simp only [eventsOf_blockTokens]
  exact treeOfEvents_nodeEvents source writable distinct

/-- The canonical text of a tree is read as that tree with its entries in order, which is alike the tree. -/
theorem read_write (tree : Tree) (source : String) (distinct : tree.HasDistinctKeys)
    (writable : tree.IsWritable) :
    ∃ text, write tree = .ok text ∧ read source text = .ok tree.ordered ∧ tree.Alike tree.ordered := by
  refine ⟨_, write_eq writable, ?_, Tree.alike_ordered tree distinct⟩
  exact read_orderedText source (Tree.isWritable_ordered tree writable)
    (Tree.hasDistinctKeys_ordered tree distinct)

/-- A tree whose texts need every care: constants and numbers as strings, escapes, indicators, an empty key, a
key with a point, empty containers, negative zero, and keys out of order. -/
def thornyTree : Tree :=
  .mapping [
    ("- x: y", .sequence [.double (Binary64.zero true), .string "null", .string "-12", .string "1e5",
      .mapping [], .sequence [.sequence [], .string ""], .int (-5), .string "# \u2028\t\"\\\x00"]),
    ("a.b", .mapping [("~", .null), ("", .bool true), ("...", .string " plain words ")]),
    ("Plain key", .string "two  words")]

theorem read_write_thornyTree :
    ∃ text, write thornyTree = .ok text ∧ read "thorny.yml" text = .ok thornyTree.ordered
      ∧ thornyTree.Alike thornyTree.ordered :=
  read_write thornyTree "thorny.yml" (by decide) (by decide +kernel)

end Yaml

end LayeredConfig
