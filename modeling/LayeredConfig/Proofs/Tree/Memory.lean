import LayeredConfig.Tree.Basic

/-!
# Trees in memory

A tree as a program keeps it: each node in a cell of its own, a container holding the places of its children, so that a
change to a cell is seen by all who know its place. `Holds` says that a cell is the root of a tree and which cells the
tree takes up. A tree stays what it is as long as its cells do (`Holds.frame`), and a copy takes up new cells only
(`copy_holds`). Programs are given the number of calls that may be nested; with fewer than a tree needs they fail.
-/

namespace LayeredConfig

/-- The place of a cell. -/
abbrev Ref := Nat

/-- What a cell holds: a scalar, or the places of the children of a container. -/
inductive Content where
  | scalar (node : Tree)
  | sequence (items : List Ref)
  | mapping (entries : List (String × Ref))

/-- The cells, by their places. -/
abbrev Memory := List Content

namespace Memory

/-! ## Programs -/

/-- A program that works on the memory, unless it fails. -/
abbrev Program := StateT Memory Option

/-- Reads a cell. -/
def read (ref : Ref) : Program Content := fun memory =>
  memory[ref]?.map fun content => (content, memory)

/-- Gives a cell another content; its place stays. -/
def replace (ref : Ref) (content : Content) : Program Unit := fun memory =>
  some ((), memory.set ref content)

/-- Takes a new cell. -/
def add (content : Content) : Program Ref := fun memory =>
  some (memory.length, memory ++ [content])

/-- Gives a key a copy of its value. -/
def copyValue (copy : Ref → Program Ref) (entry : String × Ref) : Program (String × Ref) :=
  return (entry.1, ← copy entry.2)

/-- Copies the tree whose root is in a cell, node by node. -/
def copy : Nat → Ref → Program Ref
  | 0, _ => failure
  | depth + 1, ref => do
    match ← read ref with
    | .scalar node => add (.scalar node)
    | .sequence items => do
      let copies ← items.mapM (copy depth)
      add (.sequence copies)
    | .mapping entries => do
      let copies ← entries.mapM (copyValue (copy depth))
      add (.mapping copies)

/-! ## Trees -/

mutual

/-- A tree has its root in a cell and takes up these cells. -/
inductive Holds (memory : Memory) : Tree → Ref → List Ref → Prop
  | scalar {node : Tree} {ref : Ref} (leaf : node.isContainer = false)
      (kept : memory[ref]? = some (.scalar node)) : Holds memory node ref [ref]
  | sequence {items : List Tree} {refs : List Ref} {ref : Ref} {below : List Ref}
      (kept : memory[ref]? = some (.sequence refs)) (inner : HoldsItems memory items refs below) :
      Holds memory (.sequence items) ref (ref :: below)
  | mapping {entries : List (String × Tree)} {refs : List (String × Ref)} {ref : Ref} {below : List Ref}
      (kept : memory[ref]? = some (.mapping refs)) (inner : HoldsEntries memory entries refs below) :
      Holds memory (.mapping entries) ref (ref :: below)

/-- Items have their roots in these cells, and take up those. -/
inductive HoldsItems (memory : Memory) : List Tree → List Ref → List Ref → Prop
  | nil : HoldsItems memory [] [] []
  | cons {item : Tree} {items : List Tree} {ref : Ref} {refs first rest : List Ref}
      (head : Holds memory item ref first) (tail : HoldsItems memory items refs rest) :
      HoldsItems memory (item :: items) (ref :: refs) (first ++ rest)

/-- The values of entries have their roots in these cells, and take up those. -/
inductive HoldsEntries (memory : Memory) : List (String × Tree) → List (String × Ref) → List Ref → Prop
  | nil : HoldsEntries memory [] [] []
  | cons {key : String} {value : Tree} {entries : List (String × Tree)} {ref : Ref}
      {refs : List (String × Ref)} {first rest : List Ref}
      (head : Holds memory value ref first) (tail : HoldsEntries memory entries refs rest) :
      HoldsEntries memory ((key, value) :: entries) ((key, ref) :: refs) (first ++ rest)

end

variable {memory memory' : Memory}

mutual

/-- A tree stays what it is as long as its cells do. -/
theorem Holds.frame : {tree : Tree} → {ref : Ref} → {cells : List Ref} → Holds memory tree ref cells →
    (∀ cell ∈ cells, memory'[cell]? = memory[cell]?) → Holds memory' tree ref cells
  | _, _, _, .scalar leaf kept, same => .scalar leaf ((same _ List.mem_cons_self).trans kept)
  | _, _, _, .sequence kept inner, same => .sequence ((same _ List.mem_cons_self).trans kept)
      (inner.frame fun cell member => same cell (List.mem_cons_of_mem _ member))
  | _, _, _, .mapping kept inner, same => .mapping ((same _ List.mem_cons_self).trans kept)
      (inner.frame fun cell member => same cell (List.mem_cons_of_mem _ member))

theorem HoldsItems.frame : {items : List Tree} → {refs cells : List Ref} → HoldsItems memory items refs cells →
    (∀ cell ∈ cells, memory'[cell]? = memory[cell]?) → HoldsItems memory' items refs cells
  | _, _, _, .nil, _ => .nil
  | _, _, _, .cons head tail, same =>
    .cons (head.frame fun cell member => same cell (List.mem_append_left _ member))
      (tail.frame fun cell member => same cell (List.mem_append_right _ member))

theorem HoldsEntries.frame : {entries : List (String × Tree)} → {refs : List (String × Ref)} →
    {cells : List Ref} → HoldsEntries memory entries refs cells →
    (∀ cell ∈ cells, memory'[cell]? = memory[cell]?) → HoldsEntries memory' entries refs cells
  | _, _, _, .nil, _ => .nil
  | _, _, _, .cons head tail, same =>
    .cons (head.frame fun cell member => same cell (List.mem_append_left _ member))
      (tail.frame fun cell member => same cell (List.mem_append_right _ member))

end

theorem lt_length_of_kept {ref : Ref} {content : Content} (kept : memory[ref]? = some content) :
    ref < memory.length :=
  (List.getElem?_eq_some_iff.1 kept).1

mutual

theorem Holds.lt_length : {tree : Tree} → {ref : Ref} → {cells : List Ref} → Holds memory tree ref cells →
    ∀ cell ∈ cells, cell < memory.length
  | _, _, _, .scalar _ kept => List.forall_mem_singleton.2 (lt_length_of_kept kept)
  | _, _, _, .sequence kept inner => List.forall_mem_cons.2 ⟨lt_length_of_kept kept, inner.lt_length⟩
  | _, _, _, .mapping kept inner => List.forall_mem_cons.2 ⟨lt_length_of_kept kept, inner.lt_length⟩

theorem HoldsItems.lt_length : {items : List Tree} → {refs cells : List Ref} →
    HoldsItems memory items refs cells → ∀ cell ∈ cells, cell < memory.length
  | _, _, _, .nil => nofun
  | _, _, _, .cons head tail => List.forall_mem_append.2 ⟨head.lt_length, tail.lt_length⟩

theorem HoldsEntries.lt_length : {entries : List (String × Tree)} → {refs : List (String × Ref)} →
    {cells : List Ref} → HoldsEntries memory entries refs cells → ∀ cell ∈ cells, cell < memory.length
  | _, _, _, .nil => nofun
  | _, _, _, .cons head tail => List.forall_mem_append.2 ⟨head.lt_length, tail.lt_length⟩

end

variable {tree : Tree} {ref : Ref} {cells : List Ref}

/-- New cells do not touch a tree. -/
theorem Holds.append (holds : Holds memory tree ref cells) (added : Memory) :
    Holds (memory ++ added) tree ref cells :=
  holds.frame fun cell member => List.getElem?_append_left (holds.lt_length cell member)

theorem HoldsItems.append {items : List Tree} {refs : List Ref} (holds : HoldsItems memory items refs cells)
    (added : Memory) : HoldsItems (memory ++ added) items refs cells :=
  holds.frame fun cell member => List.getElem?_append_left (holds.lt_length cell member)

theorem HoldsEntries.append {entries : List (String × Tree)} {refs : List (String × Ref)}
    (holds : HoldsEntries memory entries refs cells) (added : Memory) :
    HoldsEntries (memory ++ added) entries refs cells :=
  holds.frame fun cell member => List.getElem?_append_left (holds.lt_length cell member)

/-! ## Copies -/

/-- Cells that are all different and were not there before. -/
def Fresh (memory : Memory) (cells : List Ref) : Prop :=
  cells.Nodup ∧ ∀ cell ∈ cells, memory.length ≤ cell

theorem Fresh.append {added : Memory} {rest : List Ref} (first : Fresh memory cells)
    (bound : ∀ cell ∈ cells, cell < (memory ++ added).length) (later : Fresh (memory ++ added) rest) :
    Fresh memory (cells ++ rest) := by
  refine ⟨List.nodup_append.2 ⟨first.1, later.1, fun cell member other member' same => ?_⟩, ?_⟩
  · subst same
    exact Nat.lt_irrefl _ (Nat.lt_of_lt_of_le (bound cell member) (later.2 cell member'))
  · refine List.forall_mem_append.2 ⟨first.2, fun cell member => ?_⟩
    exact Nat.le_trans (List.length_append ▸ Nat.le_add_right _ _) (later.2 cell member)

/-- A new cell in front of those that its children take up. -/
theorem Fresh.cons {added : Memory} (children : Fresh memory cells)
    (bound : ∀ cell ∈ cells, cell < (memory ++ added).length) :
    Fresh memory ((memory ++ added).length :: cells) := by
  refine ⟨List.nodup_cons.2 ⟨fun member => Nat.lt_irrefl _ (bound _ member), children.1⟩, ?_⟩
  exact List.forall_mem_cons.2 ⟨List.length_append ▸ Nat.le_add_right _ _, children.2⟩

theorem getElem?_length (memory : Memory) (content : Content) :
    (memory ++ [content])[memory.length]? = some content := by
  simp

theorem nodeCount_pos (tree : Tree) : 0 < tree.nodeCount := by
  cases tree with
  | sequence | mapping =>
    rw [Tree.nodeCount]
    omega
  | null | bool | int | double | string => exact Nat.one_pos

mutual

/-- A copy is the same tree in cells of its own, and nothing that was there changes. -/
theorem copy_holds {memory : Memory} : {depth : Nat} → {tree : Tree} → {ref : Ref} → {cells : List Ref} →
    Holds memory tree ref cells → tree.nodeCount ≤ depth →
    ∃ copied fresh added, copy depth ref memory = some (copied, memory ++ added)
      ∧ Holds (memory ++ added) tree copied fresh ∧ Fresh memory fresh
  | 0, tree, _, _, _, enough => absurd enough (Nat.not_le.2 (nodeCount_pos tree))
  | depth + 1, tree, ref, _, .scalar leaf kept, _ => by
    have scalar := Holds.scalar leaf (getElem?_length memory (.scalar tree))
    refine ⟨_, _, [.scalar tree], ?_, scalar, by simp [Fresh]⟩
    simp only [copy, bind, StateT.bind, read, kept]
    rfl
  | depth + 1, .sequence items, ref, _, .sequence kept inner, enough => by
    rw [Tree.nodeCount] at enough
    have children : Tree.itemsNodeCount items ≤ depth := by omega
    obtain ⟨copies, fresh, added, run, holds, new⟩ := copyItems_holds inner children
    have cell := getElem?_length (memory ++ added) (.sequence copies)
    rw [List.append_assoc] at cell
    have below := holds.append [.sequence copies]
    rw [List.append_assoc] at below
    refine ⟨_, _, added ++ [.sequence copies], ?_, .sequence cell below, new.cons holds.lt_length⟩
    simp only [copy, bind, StateT.bind, read, kept]
    show (List.mapM (copy depth) _ memory).bind _ = _
    rw [run]
    exact congrArg some (congrArg (Prod.mk _) (List.append_assoc _ _ _))
  | depth + 1, .mapping entries, ref, _, .mapping kept inner, enough => by
    rw [Tree.nodeCount] at enough
    have children : Tree.entriesNodeCount entries ≤ depth := by omega
    obtain ⟨copies, fresh, added, run, holds, new⟩ := copyEntries_holds inner children
    have cell := getElem?_length (memory ++ added) (.mapping copies)
    rw [List.append_assoc] at cell
    have below := holds.append [.mapping copies]
    rw [List.append_assoc] at below
    refine ⟨_, _, added ++ [.mapping copies], ?_, .mapping cell below, new.cons holds.lt_length⟩
    simp only [copy, bind, StateT.bind, read, kept]
    show (List.mapM (copyValue (copy depth)) _ memory).bind _ = _
    rw [run]
    exact congrArg some (congrArg (Prod.mk _) (List.append_assoc _ _ _))

theorem copyItems_holds {memory : Memory} : {depth : Nat} → {items : List Tree} → {refs cells : List Ref} →
    HoldsItems memory items refs cells → Tree.itemsNodeCount items ≤ depth →
    ∃ copies fresh added, refs.mapM (copy depth) memory = some (copies, memory ++ added)
      ∧ HoldsItems (memory ++ added) items copies fresh ∧ Fresh memory fresh
  | depth, _, _, _, .nil, _ => ⟨[], [], [], by rw [List.append_nil]; rfl, .nil, List.nodup_nil, nofun⟩
  | depth, item :: items, _, _, .cons head tail, enough => by
    rw [Tree.itemsNodeCount] at enough
    have small : item.nodeCount ≤ depth := by omega
    have others : Tree.itemsNodeCount items ≤ depth := by omega
    obtain ⟨copied, first, added, run, holds, new⟩ := copy_holds head small
    obtain ⟨copies, rest, more, run', holds', new'⟩ := copyItems_holds (tail.append added) others
    have inner := holds.append more
    rw [List.append_assoc] at inner holds'
    refine ⟨copied :: copies, first ++ rest, added ++ more, ?_, .cons inner holds', new.append holds.lt_length new'⟩
    rw [List.mapM_cons, ← List.append_assoc]
    simp only [bind, StateT.bind, run]
    show (List.mapM (copy depth) _ (memory ++ added)).bind _ = _
    rw [run']
    rfl

theorem copyEntries_holds {memory : Memory} : {depth : Nat} → {entries : List (String × Tree)} →
    {refs : List (String × Ref)} → {cells : List Ref} →
    HoldsEntries memory entries refs cells → Tree.entriesNodeCount entries ≤ depth →
    ∃ copies fresh added,
      refs.mapM (copyValue (copy depth)) memory = some (copies, memory ++ added)
      ∧ HoldsEntries (memory ++ added) entries copies fresh ∧ Fresh memory fresh
  | depth, _, _, _, .nil, _ => ⟨[], [], [], by rw [List.append_nil]; rfl, .nil, List.nodup_nil, nofun⟩
  | depth, (_, value) :: entries, _, _, .cons head tail, enough => by
    rw [Tree.entriesNodeCount] at enough
    have small : value.nodeCount ≤ depth := by omega
    have others : Tree.entriesNodeCount entries ≤ depth := by omega
    obtain ⟨copied, first, added, run, holds, new⟩ := copy_holds head small
    obtain ⟨copies, rest, more, run', holds', new'⟩ := copyEntries_holds (tail.append added) others
    have inner := holds.append more
    rw [List.append_assoc] at inner holds'
    refine ⟨(_, copied) :: copies, first ++ rest, added ++ more, ?_, .cons inner holds',
      new.append holds.lt_length new'⟩
    rw [List.mapM_cons, ← List.append_assoc]
    simp only [bind, StateT.bind, copyValue, run]
    show (List.mapM (copyValue (copy depth)) _ (memory ++ added)).bind _ = _
    rw [run']
    rfl

end

end Memory

end LayeredConfig
