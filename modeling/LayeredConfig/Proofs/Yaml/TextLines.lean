import LayeredConfig.Proofs.Yaml.LineEnds
import LayeredConfig.Proofs.Yaml.Writing
import LayeredConfig.Text.Lines

/-!
# Lines of a canonical text

No scalar breaks a line: what is written for a value or a key holds no line boundary of any kind, whatever its text is
(`isWhole_write`, `isWhole_writeKey`). So the lines that a canonical text is listed by are those that it was put together from
(`lines_of_write`), one for each node below the root, or the only one of a root that stands by itself (`length_treeLines`).
-/

namespace LayeredConfig

namespace Text

variable {chars line rest : List Char}

theorem linesFrom_cons {c : Char} (inner : isLineBoundary c = false) (line rest : List Char) :
    linesFrom line (c :: rest) = linesFrom (c :: line) rest := by
  rw [linesFrom, inner, if_neg Bool.false_ne_true]
  rintro more rfl
  cases inner

theorem linesFrom_append (unbroken : ∀ c ∈ chars, isLineBoundary c = false) (line rest : List Char) :
    linesFrom line (chars ++ rest) = linesFrom (chars.reverse ++ line) rest := by
  induction chars generalizing line with
  | nil => rfl
  | cons c chars ih =>
    rw [List.forall_mem_cons] at unbroken
    rw [List.cons_append, linesFrom_cons unbroken.1, ih unbroken.2, List.reverse_cons, List.append_assoc]
    rfl

/-- A line ends where its line feed is. -/
theorem lines_append (unbroken : ∀ c ∈ chars, isLineBoundary c = false) (rest : List Char) :
    lines (chars ++ '\n' :: rest) = chars :: lines rest := by
  have feed : isLineBoundary '\n' = true := rfl
  rw [lines, linesFrom_append unbroken, linesFrom, feed, if_pos rfl, List.append_nil, List.reverse_reverse]
  · rfl
  · nofun

end Text

namespace Yaml

variable {tree : Tree} {indent : Nat} {lead : Line} {below lines : List Line} {text : List Char}

/-! ## Characters -/

theorem isLineBoundary_of_needsEscape {c : Char} (plain : needsEscape c = false) : Text.isLineBoundary c = false := by
  rw [← Bool.not_eq_true]
  intro boundary
  simp only [Text.isLineBoundary, Bool.or_eq_true, beq_iff_eq] at boundary
  rcases boundary with (((((((((rfl | rfl) | rfl) | rfl) | rfl) | rfl) | rfl) | rfl) | rfl) | rfl) <;>
    exact absurd plain (by decide)

theorem isLineBoundary_of_isPrintable {c : Char} (steady : isSteady c = true) (printable : isPrintable c = true) :
    Text.isLineBoundary c = false := by
  have both : (isSteady c && isPrintable c) = true := by rw [steady, printable]; rfl
  rw [← Bool.not_eq_true]
  intro boundary
  simp only [Text.isLineBoundary, Bool.or_eq_true, beq_iff_eq] at boundary
  rcases boundary with (((((((((rfl | rfl) | rfl) | rfl) | rfl) | rfl) | rfl) | rfl) | rfl) | rfl) <;>
    exact absurd both (by decide)

/-- The escape of a character breaks no line, whatever the character. -/
theorem unbroken_escapeChar (c : Char) : ∀ d ∈ escapeChar c, Text.isLineBoundary d = false := by
  have backslash : Text.isLineBoundary '\\' = false := rfl
  rcases escapeChar_cases c with ⟨itself, escape⟩ | ⟨letter, -, steady, printable, escape⟩ |
    ⟨letter, width, -, -, steady, printable, -, escape⟩
  · simp only [standsForItself, Bool.and_eq_true, Bool.not_eq_true'] at itself
    rw [escape, List.forall_mem_singleton]
    exact isLineBoundary_of_needsEscape itself.2
  · rw [escape, List.forall_mem_cons, List.forall_mem_singleton]
    exact ⟨backslash, isLineBoundary_of_isPrintable steady printable⟩
  · have digits := List.all_eq_true.1 (all_isHexDigit_hexText width c.toNat)
    rw [escape, List.forall_mem_cons, List.forall_mem_cons]
    refine ⟨backslash, isLineBoundary_of_isPrintable steady printable, fun d member => ?_⟩
    have classes := hexDigit_classes (digits d member)
    exact isLineBoundary_of_isPrintable classes.1 classes.2

theorem unbroken_quote (text : List Char) : ∀ c ∈ quote text, Text.isLineBoundary c = false := by
  have mark : Text.isLineBoundary '"' = false := rfl
  rw [quote, List.cons_append, List.forall_mem_cons, List.forall_mem_append, List.forall_mem_singleton]
  refine ⟨mark, fun d member => ?_, mark⟩
  obtain ⟨c, -, member⟩ := List.mem_flatMap.1 member
  exact unbroken_escapeChar c d member

/-! ## Scalars and keys -/

/-- A line or a part of one that has characters, none of which is a line boundary, if it can be written. -/
def IsWhole (line : Line) : Prop :=
  ∀ chars, line = .ok chars → chars ≠ [] ∧ ∀ c ∈ chars, Text.isLineBoundary c = false

theorem isWhole_ok {chars : List Char} :
    IsWhole (.ok chars) ↔ chars ≠ [] ∧ ∀ c ∈ chars, Text.isLineBoundary c = false :=
  ⟨fun whole => whole chars rfl, fun whole _ same => Except.ok.inj same ▸ whole⟩

/-- Lines that are given can be looked through. -/
theorem isWhole_of_all {chars : List Char} (filled : chars ≠ [])
    (inner : chars.all (fun c => !Text.isLineBoundary c) = true) : IsWhole (.ok chars) :=
  isWhole_ok.2 ⟨filled, fun c member => Bool.not_eq_true' _ ▸ List.all_eq_true.1 inner c member⟩

/-- A text breaks no line, with or without quotes. -/
theorem isWhole_stringText (text : List Char) (asKey : Bool) : IsWhole (Scalar.stringText text asKey) := by
  rw [Scalar.stringText]
  cases decided : Scalar.needsQuotes text asKey with
  | error e =>
    intro _ impossible
    cases impossible
  | ok quotes =>
    refine isWhole_ok.2 ?_
    cases quotes with
    | true => exact ⟨List.cons_ne_nil _ _, unbroken_quote text⟩
    | false =>
      have bare := Scalar.isBare_of_needsQuotes decided
      exact ⟨bare.nonempty, fun c member => isLineBoundary_of_needsEscape (bare.chars c member).2⟩

theorem isWhole_writeKey (key : String) : IsWhole (Scalar.writeKey key) :=
  isWhole_stringText key.toList true

theorem Written.chars_ne_nil {written : Written} (sound : written.IsSound) : written.chars ≠ [] := by
  obtain ⟨text, quoted⟩ := written
  cases quoted with
  | true => exact List.cons_ne_nil _ _
  | false => exact (sound.resolve_left Bool.false_ne_true).1.nonempty

/-- A scalar breaks no line. -/
theorem isWhole_write (node : Tree) : IsWhole (Scalar.write node) := by
  -- what can be read back is one steady token; that leaves all texts, which may hold what no reader takes
  have whole {node : Tree} (writable : Scalar.IsWritable node) : IsWhole (Scalar.write node) := by
    have back := Scalar.readsBack_ofScalar writable
    rw [Scalar.write_of_isWritable writable]
    refine isWhole_ok.2 ⟨Written.chars_ne_nil back.sound, fun c member => ?_⟩
    exact isLineBoundary_of_isPrintable (List.all_eq_true.1 (Written.all_isSteady back.sound) c member)
      (List.all_eq_true.1 back.printable c member)
  cases node with
  | string text => exact isWhole_stringText text.toList false
  | sequence | mapping => exact nofun
  | null | bool | int => exact whole trivial
  | double value =>
    cases value with
    | finite negative rank => exact whole rfl
    | infinity negative => cases negative <;> exact isWhole_of_all (by decide) (by decide)
    | nan payload =>
      have name : ".nan".toList ≠ [] ∧ ".nan".toList.all (fun c => !Text.isLineBoundary c) = true := by decide
      exact isWhole_of_all name.1 name.2

/-! ## Lines of a tree -/

theorem isWhole_inline? {line : Line} (found : inline? tree = some line) : IsWhole line := by
  unfold inline? at found
  split at found
  · cases found
    exact isWhole_of_all (by decide) (by decide)
  · cases found
    exact isWhole_of_all (by decide) (by decide)
  · cases found
  · cases found
  · cases found
    exact isWhole_write tree

theorem unbroken_pad (indent : Nat) : ∀ c ∈ pad indent, Text.isLineBoundary c = false :=
  fun _ member => (List.eq_of_mem_replicate member) ▸ rfl

theorem isWhole_itemLead (indent : Nat) : IsWhole (itemLead indent) :=
  isWhole_ok.2 ⟨List.append_ne_nil_of_right_ne_nil _ (List.cons_ne_nil _ _),
    List.forall_mem_append.2 ⟨unbroken_pad indent, List.forall_mem_singleton.2 rfl⟩⟩

theorem isWhole_entryLead (indent : Nat) (key : String) : IsWhole (entryLead indent key) := by
  have whole := isWhole_writeKey key
  rw [entryLead]
  cases written : Scalar.writeKey key with
  | error e => exact nofun
  | ok text =>
    rw [written, isWhole_ok] at whole
    refine isWhole_ok.2 ⟨List.append_ne_nil_of_right_ne_nil _ (List.cons_ne_nil _ _), ?_⟩
    exact List.forall_mem_append.2
      ⟨List.forall_mem_append.2 ⟨unbroken_pad indent, whole.2⟩, List.forall_mem_singleton.2 rfl⟩

theorem isWhole_leadIn (led : IsWhole lead) (inner : ∀ line ∈ below, IsWhole line) :
    ∀ line ∈ leadIn lead tree below, IsWhole line := by
  unfold leadIn
  cases found : inline? tree with
  | none => exact List.forall_mem_cons.2 ⟨led, inner⟩
  | some content =>
    refine List.forall_mem_singleton.2 fun chars written => ?_
    obtain ⟨front, rfl, rest⟩ := Outcome.bind_eq_ok.1 written
    obtain ⟨back, rfl, same⟩ := Outcome.bind_eq_ok.1 rest
    cases same
    have space : Text.isLineBoundary ' ' = false := rfl
    refine ⟨List.append_ne_nil_of_right_ne_nil _ (List.cons_ne_nil _ _), List.forall_mem_append.2 ?_⟩
    exact ⟨(isWhole_ok.1 led).2, List.forall_mem_cons.2 ⟨space, (isWhole_ok.1 (isWhole_inline? found)).2⟩⟩

mutual

/-- No line of the children of a node is broken. -/
theorem isWhole_childLines (indent : Nat) : (tree : Tree) → ∀ line ∈ childLines indent tree, IsWhole line
  | .mapping entries => forall_mem_entryLines.2 (isWhole_entryLines indent entries)
  | .sequence items => forall_mem_itemLines.2 (isWhole_itemLines indent items)
  | .null | .bool _ | .int _ | .double _ | .string _ => nofun

theorem isWhole_itemLines (indent : Nat) : (items : List Tree) → ∀ item ∈ items,
    ∀ line ∈ leadIn (itemLead indent) item (childLines (indent + 2) item), IsWhole line
  | [] => nofun
  | item :: rest => List.forall_mem_cons.2
    ⟨isWhole_leadIn (isWhole_itemLead indent) (isWhole_childLines (indent + 2) item), isWhole_itemLines indent rest⟩

theorem isWhole_entryLines (indent : Nat) : (entries : List (String × Tree)) → ∀ entry ∈ entries,
    ∀ line ∈ leadIn (entryLead indent entry.1) entry.2 (childLines (indent + 2) entry.2), IsWhole line
  | [] => nofun
  | (key, value) :: rest => List.forall_mem_cons.2
    ⟨isWhole_leadIn (isWhole_entryLead indent key) (isWhole_childLines (indent + 2) value),
      isWhole_entryLines indent rest⟩

end

theorem isWhole_treeLines (tree : Tree) : ∀ line ∈ treeLines tree, IsWhole line := by
  rw [treeLines]
  cases found : inline? tree with
  | none => exact isWhole_childLines 0 tree
  | some line => exact List.forall_mem_singleton.2 (isWhole_inline? found)

/-! ## The number of lines -/

/-- A node that stands in the line of its parent is the only one there. -/
theorem nodeCount_of_inline? {line : Line} (found : inline? tree = some line) : tree.nodeCount = 1 := by
  cases tree with
  | sequence items =>
    cases items with
    | nil => rfl
    | cons => cases found
  | mapping entries =>
    cases entries with
    | nil => rfl
    | cons => cases found
  | null | bool | int | double | string => rfl

theorem length_leadIn (count : below.length + 1 = tree.nodeCount) : (leadIn lead tree below).length = tree.nodeCount := by
  unfold leadIn
  cases found : inline? tree with
  | none => exact count
  | some content => exact (nodeCount_of_inline? found).symm

mutual

/-- The children of a node take a line for each node below it. -/
theorem length_childLines (indent : Nat) : (tree : Tree) → (childLines indent tree).length + 1 = tree.nodeCount
  | .mapping entries => by
    have sorted := (Entries.sortByKey_perm (entryBlocks indent entries)).flatMap_right Prod.snd
    rw [childLines, Tree.nodeCount, sorted.length_eq, length_entryBlocks, Nat.add_comm]
  | .sequence items => by rw [childLines, Tree.nodeCount, length_itemLines, Nat.add_comm]
  | .null | .bool _ | .int _ | .double _ | .string _ => rfl

theorem length_itemLines (indent : Nat) : (items : List Tree) →
    (itemLines indent items).length = Tree.itemsNodeCount items
  | [] => rfl
  | item :: rest => by
    rw [itemLines, Tree.itemsNodeCount, List.length_append, length_leadIn (length_childLines (indent + 2) item),
      length_itemLines indent rest]

theorem length_entryBlocks (indent : Nat) : (entries : List (String × Tree)) →
    ((entryBlocks indent entries).flatMap Prod.snd).length = Tree.entriesNodeCount entries
  | [] => rfl
  | (key, value) :: rest => by
    rw [entryBlocks, Tree.entriesNodeCount, List.flatMap_cons, List.length_append,
      length_leadIn (length_childLines (indent + 2) value), length_entryBlocks indent rest]

end

/-- What does not stand in the line of its parent has a node below it. -/
theorem one_lt_nodeCount (found : inline? tree = none) : 1 < tree.nodeCount := by
  have positive (node : Tree) : 0 < node.nodeCount := length_childLines 0 node ▸ Nat.succ_pos _
  cases tree with
  | sequence items =>
    cases items with
    | nil => cases found
    | cons item rest =>
      rw [Tree.nodeCount, Tree.itemsNodeCount]
      exact Nat.lt_add_of_pos_right (Nat.add_pos_left (positive item) _)
  | mapping entries =>
    cases entries with
    | nil => cases found
    | cons entry rest =>
      rw [Tree.nodeCount, Tree.entriesNodeCount]
      exact Nat.lt_add_of_pos_right (Nat.add_pos_left (positive entry.2) _)
  | null | bool | int | double | string => cases found

/-- A tree takes a line for each node below its root, and one if the root stands by itself. -/
theorem length_treeLines (tree : Tree) : (treeLines tree).length = max 1 (tree.nodeCount - 1) := by
  have count := length_childLines 0 tree
  rw [treeLines]
  cases found : inline? tree with
  | some line => rw [nodeCount_of_inline? found]; rfl
  | none =>
    have below := one_lt_nodeCount found
    dsimp only
    omega

/-! ## The text -/

/-- The lines that a text was put together from are those that it is listed by. -/
theorem lines_joinLines (joined : joinLines lines = (text, none)) (whole : ∀ line ∈ lines, IsWhole line) :
    lines = (Text.lines text).map .ok ∧ text = (Text.lines text).flatMap (· ++ ['\n']) := by
  induction lines generalizing text with
  | nil =>
    cases joined
    exact ⟨rfl, rfl⟩
  | cons line rest ih =>
    rw [List.forall_mem_cons] at whole
    cases line with
    | error e => cases joined
    | ok chars =>
      obtain ⟨rfl, ended⟩ := Prod.mk.inj joined
      obtain ⟨same, parts⟩ := ih (Prod.ext rfl ended) whole.2
      rw [Text.lines_append (isWhole_ok.1 whole.1).2, List.map_cons, List.flatMap_cons, ← same, ← parts,
        List.append_assoc]
      exact ⟨rfl, rfl⟩

/-- A canonical text is made of the lines of its tree, each with a line feed. -/
theorem lines_of_write (written : write tree = .ok text) :
    treeLines tree = (Text.lines text).map .ok ∧ text = (Text.lines text).flatMap (· ++ ['\n']) := by
  rw [write] at written
  split at written
  · next joined =>
    cases written
    exact lines_joinLines joined (isWhole_treeLines tree)
  · cases written

theorem length_lines_of_write (written : write tree = .ok text) :
    (Text.lines text).length = max 1 (tree.nodeCount - 1) := by
  rw [← length_treeLines, (lines_of_write written).1, List.length_map]

theorem unbroken_lines_of_write (written : write tree = .ok text) {line : List Char} (member : line ∈ Text.lines text) :
    line ≠ [] ∧ ∀ c ∈ line, Text.isLineBoundary c = false := by
  refine isWhole_ok.1 (isWhole_treeLines tree _ ?_)
  rw [(lines_of_write written).1]
  exact List.mem_map_of_mem member

end Yaml

end LayeredConfig
