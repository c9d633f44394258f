import LayeredConfig.Proofs.Tree.MergeByPath
import LayeredConfig.Proofs.Tree.Memory

/-!
# Merging in place

`Memory.mergeInto` merges a tree that is kept in memory into another one by changing its cells, and `Memory.merged`
merges it into a copy. Both make the tree of `Tree.merge`, and the tree that is laid over stays as it is, since what is
taken from it is copied: `mergeInto_makes` and `merged_holds`. The induction is on the tree that is laid over; what it
carries is that only the cells of the lower tree change (`Changes`).
-/

namespace LayeredConfig.Memory

/-! ## Programs -/

/-- Lays the value of an entry over the mapping in a cell: into the value under its key, or as a copy under a new
key. -/
def mergeValue (merge : Ref → Ref → Program Unit) (copy : Ref → Program Ref) (destination : Ref)
    (entry : String × Ref) : Program Unit := do
  match ← read destination with
  | .mapping lowers =>
    match lowers.lookup entry.1 with
    | some lower => merge lower entry.2
    | none => do
      let copied ← copy entry.2
      replace destination (.mapping (Entries.put entry.1 copied lowers))
  | _ => failure

/-- Gives a cell the content of a copy of the tree in another cell. -/
def replaceByCopy (copy : Ref → Program Ref) (destination source : Ref) : Program Unit := do
  let copied ← copy source
  replace destination (← read copied)

/-- Lays the tree in one cell over the tree in another, whose cells are changed. -/
def mergeInto : Nat → Ref → Ref → Program Unit
  | 0, _, _ => failure
  | depth + 1, destination, source => do
    match ← read destination, ← read source with
    | _, .scalar .null => replace destination (.scalar .null)
    | .scalar .null, _ => replaceByCopy (copy depth) destination source
    | .mapping _, .mapping uppers => uppers.forM (mergeValue (mergeInto depth) (copy depth) destination)
    | _, _ => replaceByCopy (copy depth) destination source

/-- Lays the tree in one cell over a copy of the tree in another. -/
def merged (depth : Nat) (base override : Ref) : Program Ref := do
  let result ← copy depth base
  mergeInto depth result override
  return result

/-! ## What changes -/

/-- No cell that was there changes but these, which give way to those; cells that are new may be among them. -/
structure Changes (memory memory' : Memory) (cells cells' : List Ref) : Prop where
  grows : memory.length ≤ memory'.length
  others : ∀ cell < memory.length, cell ∉ cells → memory'[cell]? = memory[cell]?
  nodup : cells'.Nodup
  origin : ∀ cell ∈ cells', cell ∈ cells ∨ memory.length ≤ cell

variable {memory memory' memory'' : Memory} {cells cells' cells'' outside : List Ref} {tree lower upper : Tree}
  {ref destination source : Ref}

theorem Changes.refl (nodup : cells.Nodup) : Changes memory memory cells cells :=
  ⟨Nat.le_refl _, fun _ _ _ => rfl, nodup, fun _ => Or.inl⟩

theorem Changes.trans (first : Changes memory memory' cells cells')
    (second : Changes memory' memory'' cells' cells'') : Changes memory memory'' cells cells'' := by
  refine ⟨Nat.le_trans first.grows second.grows, fun cell old other => ?_, second.nodup, fun cell member => ?_⟩
  · rw [second.others cell (Nat.lt_of_lt_of_le old first.grows), first.others cell old other]
    intro member
    rcases first.origin cell member with known | new
    · exact other known
    · exact Nat.not_le.2 old new
  · rcases second.origin cell member with known | new
    · exact first.origin cell known
    · exact Or.inr (Nat.le_trans first.grows new)

/-- Cells that were there and are none of those that change are none of those that they give way to. -/
theorem Changes.apart (changes : Changes memory memory' cells cells') {cell : Ref} (old : cell < memory.length)
    (apart : cell ∉ cells) : cell ∉ cells' := by
  intro member
  rcases changes.origin cell member with known | new
  · exact apart known
  · exact Nat.not_le.2 old new

/-- A tree that shares no cell with what changes stays as it is. -/
theorem Changes.holds (changes : Changes memory memory' cells cells') (holds : Holds memory tree ref outside)
    (apart : ∀ cell ∈ outside, cell ∉ cells) : Holds memory' tree ref outside :=
  holds.frame fun cell member => changes.others cell (holds.lt_length cell member) (apart cell member)

theorem not_mem_of_nodup {front back : List Ref} (nodup : (front ++ (cells ++ back)).Nodup) {cell : Ref}
    (member : cell ∈ front ++ back) : cell ∉ cells := by
  simp only [List.nodup_append, List.mem_append, or_imp, forall_and] at nodup member
  obtain ⟨-, ⟨-, -, inner_back⟩, front_inner, -⟩ := nodup
  intro inner
  rcases member with member | member
  · exact front_inner cell member cell inner rfl
  · exact inner_back cell inner cell member rfl

/-- What changes among more cells, the others staying as they are. -/
theorem Changes.among {front back : List Ref} (changes : Changes memory memory' cells cells')
    (nodup : (front ++ (cells ++ back)).Nodup) (old : ∀ cell ∈ front ++ (cells ++ back), cell < memory.length) :
    Changes memory memory' (front ++ (cells ++ back)) (front ++ (cells' ++ back)) := by
  have apart (cell : Ref) (member : cell ∈ front ++ back) : cell ∉ cells' := by
    refine changes.apart (old cell ?_) (not_mem_of_nodup nodup member)
    rw [List.mem_append] at member
    rcases member with member | member <;> simp [member]
  simp only [List.nodup_append, List.mem_append, or_imp, forall_and] at nodup apart
  obtain ⟨front_nodup, ⟨-, back_nodup, -⟩, -, front_back⟩ := nodup
  refine ⟨changes.grows, fun cell old other => ?_, ?_, fun cell member => ?_⟩
  · exact changes.others cell old fun inner => other (by simp [inner])
  · simp only [List.nodup_append, List.mem_append, or_imp, forall_and]
    refine ⟨front_nodup, ⟨changes.nodup, back_nodup, ?_⟩, ?_, front_back⟩
    · rintro cell inner other member rfl
      exact apart.2 cell member inner
    · rintro cell member other inner rfl
      exact apart.1 cell member inner
  · simp only [List.mem_append] at member ⊢
    rcases member with member | inner | member
    · exact Or.inl (Or.inl member)
    · exact (changes.origin cell inner).imp_left fun known => Or.inr (Or.inl known)
    · exact Or.inl (Or.inr (Or.inr member))

/-- A program that ends, and makes the tree that takes up these cells another one with its root in the same place. -/
def Makes (run : Program Unit) (memory : Memory) (cells : List Ref) (tree : Tree) (ref : Ref) : Prop :=
  ∃ memory' cells', run memory = some ((), memory') ∧ Changes memory memory' cells cells'
    ∧ Holds memory' tree ref cells'

/-! ## Steps of a merge -/

/-- A tree may have its root anywhere: its other cells are what matters. -/
theorem Holds.exists_content (holds : Holds memory tree ref cells) :
    ∃ content below, cells = ref :: below ∧ memory[ref]? = some content
      ∧ ∀ {memory' : Memory} {ref' : Ref}, memory'[ref']? = some content →
        (∀ cell ∈ below, memory'[cell]? = memory[cell]?) → Holds memory' tree ref' (ref' :: below) := by
  cases holds with
  | scalar leaf kept => exact ⟨_, [], rfl, kept, fun kept _ => .scalar leaf kept⟩
  | sequence kept inner => exact ⟨_, _, rfl, kept, fun kept same => .sequence kept (inner.frame same)⟩
  | mapping kept inner => exact ⟨_, _, rfl, kept, fun kept same => .mapping kept (inner.frame same)⟩

theorem Holds.mem_root (holds : Holds memory tree ref cells) : ref ∈ cells := by
  obtain ⟨content, below, rfl, -⟩ := holds.exists_content
  exact List.mem_cons_self

theorem replaceByCopy_makes {depth : Nat} (holds : Holds memory lower destination cells)
    (holds' : Holds memory upper source outside) (enough : upper.nodeCount ≤ depth) :
    Makes (replaceByCopy (copy depth) destination source) memory cells upper destination := by
  obtain ⟨copied, fresh, added, run, kept, nodup, new⟩ := copy_holds holds' enough
  obtain ⟨content, below, rfl, found, moved⟩ := kept.exists_content
  have old := holds.lt_length destination holds.mem_root
  have bound : destination < (memory ++ added).length := by
    rw [List.length_append]
    exact Nat.lt_add_right _ old
  rw [List.forall_mem_cons] at new
  have apart : destination ∉ below := fun member => Nat.not_le.2 old (new.2 destination member)
  refine ⟨(memory ++ added).set destination content, destination :: below, ?_, ⟨?_, ?_, ?_, ?_⟩, ?_⟩
  · simp only [replaceByCopy, bind, StateT.bind, run, Option.bind, read, found]
    rfl
  · rw [List.length_set, List.length_append]
    exact Nat.le_add_right _ _
  · intro cell before other
    have different : destination ≠ cell := fun same => other (same ▸ holds.mem_root)
    rw [List.getElem?_set_ne different, List.getElem?_append_left before]
  · exact List.nodup_cons.2 ⟨apart, (List.nodup_cons.1 nodup).2⟩
  · exact List.forall_mem_cons.2 ⟨Or.inl holds.mem_root, fun cell member => Or.inr (new.2 cell member)⟩
  · refine moved (List.getElem?_set_self bound) fun cell member => List.getElem?_set_ne ?_
    rintro rfl
    exact apart member

theorem HoldsEntries.keys {entries : List (String × Tree)} {refs : List (String × Ref)} {cells : List Ref} :
    HoldsEntries memory entries refs cells → refs.map Prod.fst = entries.map Prod.fst
  | .nil => rfl
  | .cons _ tail => congrArg (List.cons _) tail.keys

/-- An entry with a new key goes to the end. -/
theorem HoldsEntries.concat {entries : List (String × Tree)} {refs : List (String × Ref)} {cells fresh : List Ref}
    (key : String) (new : Holds memory tree ref fresh) : HoldsEntries memory entries refs cells →
    HoldsEntries memory (entries ++ [(key, tree)]) (refs ++ [(key, ref)]) (cells ++ fresh)
  | .nil => by
    have last : HoldsEntries memory [(key, tree)] [(key, ref)] (fresh ++ []) := .cons new .nil
    rwa [List.append_nil] at last
  | .cons head tail => by
    rw [List.append_assoc]
    exact .cons head (tail.concat key new)

/-- The value under a key may be changed in its cells. -/
theorem HoldsEntries.focus {entries : List (String × Tree)} {refs : List (String × Ref)} {cells : List Ref}
    {key : String} {value : Tree} (holds : HoldsEntries memory entries refs cells)
    (found : entries.lookup key = some value) :
    ∃ ref front inner back, refs.lookup key = some ref ∧ cells = front ++ (inner ++ back)
      ∧ Holds memory value ref inner
      ∧ ∀ {memory' : Memory} {value' : Tree} {inner' : List Ref},
        (∀ cell ∈ front ++ back, memory'[cell]? = memory[cell]?) → Holds memory' value' ref inner' →
        HoldsEntries memory' (Entries.put key value' entries) refs (front ++ (inner' ++ back)) := by
  induction entries generalizing refs cells with
  | nil => cases found
  | cons entry rest ih =>
    cases holds with
    | @cons k v _ ref refs first below head tail =>
      by_cases same : k = key
      · subst same
        rw [List.lookup_cons, beq_self_eq_true] at found
        cases found
        refine ⟨ref, [], first, below, List.lookup_cons_self, rfl, head, fun same kept => ?_⟩
        rw [Entries.put, if_pos rfl, List.nil_append]
        exact .cons kept (tail.frame same)
      · have other : (key == k) = false := beq_eq_false_iff_ne.2 (Ne.symm same)
        rw [List.lookup_cons, other] at found
        obtain ⟨ref', front, inner, back, known, rfl, child, change⟩ := ih tail found
        refine ⟨ref', first ++ front, inner, back, ?_, ?_, child, fun {memory' value' inner'} same' kept => ?_⟩
        · rw [List.lookup_cons, other, known]
        · rw [List.append_assoc]
        · rw [Entries.put, if_neg same, List.append_assoc]
          rw [List.append_assoc] at same'
          exact .cons (head.frame fun cell member => same' cell (List.mem_append_left _ member))
            (change (fun cell member => same' cell (List.mem_append_right _ member)) kept)

/-- Laying one entry over a mapping, if laying its value over another tree works. -/
theorem mergeValue_makes {depth : Nat} {lowers : List (String × Tree)} (key : String)
    (holds : Holds memory (.mapping lowers) destination cells) (nodup : cells.Nodup)
    (holds' : Holds memory upper source outside) (enough : upper.nodeCount ≤ depth)
    (merges : ∀ {lower : Tree} {ref : Ref} {inner : List Ref}, Holds memory lower ref inner → inner.Nodup →
      inner ⊆ cells → Makes (mergeInto depth ref source) memory inner (lower.merge upper) ref) :
    Makes (mergeValue (mergeInto depth) (copy depth) destination (key, source)) memory cells
      (.mapping (Entries.put key ((lowers.lookup key).elim upper fun lower => lower.merge upper) lowers))
      destination := by
  have old := holds.lt_length
  cases holds with
  | scalar leaf => cases leaf
  | @mapping _ refs _ below kept inner =>
    cases found : lowers.lookup key with
    | some lower =>
      obtain ⟨ref, front, middle, back, known, rfl, child, change⟩ := inner.focus found
      have subset : middle ⊆ destination :: (front ++ (middle ++ back)) := fun cell member => by simp [member]
      have inner_nodup : middle.Nodup :=
        (List.nodup_append.1 (List.nodup_append.1 (List.nodup_cons.1 nodup).2).2.1).1
      obtain ⟨memory', middle', run, changes, made⟩ := merges child inner_nodup subset
      have among := @Changes.among memory memory' middle middle' (destination :: front) back changes nodup old
      have same : ∀ cell ∈ destination :: (front ++ back), memory'[cell]? = memory[cell]? := by
        intro cell member
        have among : cell ∈ destination :: (front ++ (middle ++ back)) := by grind
        exact changes.others cell (old cell among) (@not_mem_of_nodup middle (destination :: front) back nodup cell member)
      rw [List.forall_mem_cons] at same
      refine ⟨memory', destination :: (front ++ (middle' ++ back)), ?_, among, ?_⟩
      · simp only [mergeValue, bind, StateT.bind, read, kept, Option.map, Option.bind, known]
        exact run
      · exact .mapping (same.1.trans kept) (change same.2 made)
    | none =>
      have absent := Entries.lookup_eq_none_iff.1 found
      have absent' : key ∉ refs.map Prod.fst := by rwa [inner.keys]
      obtain ⟨copied, fresh, added, run, copies, nodup', new⟩ := copy_holds holds' enough
      have bound : destination < (memory ++ added).length := by
        rw [List.length_append]
        exact Nat.lt_add_right _ (old destination List.mem_cons_self)
      have replaced {cell : Ref} (other : cell ≠ destination) (content : Content) :
          ((memory ++ added).set destination content)[cell]? = (memory ++ added)[cell]? :=
        List.getElem?_set_ne (Ne.symm other)
      have apart : ∀ cell ∈ below ++ fresh, cell ≠ destination := by
        refine List.forall_mem_append.2 ⟨fun cell member same => ?_, fun cell member same => ?_⟩
        · exact (List.nodup_cons.1 nodup).1 (same ▸ member)
        · exact Nat.not_le.2 (old destination List.mem_cons_self) (same ▸ new cell member)
      have entries := ((inner.append added).concat key copies).frame fun cell member =>
        replaced (apart cell member) (.mapping (refs ++ [(key, copied)]))
      refine ⟨(memory ++ added).set destination (.mapping (refs ++ [(key, copied)])),
        destination :: (below ++ fresh), ?_, ⟨?_, ?_, ?_, ?_⟩,
        .mapping (List.getElem?_set_self bound) ?_⟩
      · simp only [mergeValue, bind, StateT.bind, read, kept, Option.map, Option.bind,
          Entries.lookup_eq_none_iff.2 absent', run, Entries.put_of_not_mem absent']
        rfl
      · rw [List.length_set, List.length_append]
        exact Nat.le_add_right _ _
      · intro cell before other
        rw [replaced, List.getElem?_append_left before]
        rintro rfl
        exact other List.mem_cons_self
      · refine List.nodup_cons.2 ⟨fun member => apart _ member rfl, List.nodup_append.2 ⟨?_, nodup', ?_⟩⟩
        · exact (List.nodup_cons.1 nodup).2
        · rintro cell member other member' rfl
          exact Nat.not_le.2 (old cell (List.mem_cons_of_mem _ member)) (new cell member')
      · refine List.forall_mem_cons.2 ⟨Or.inl List.mem_cons_self, List.forall_mem_append.2 ⟨?_, ?_⟩⟩
        · exact fun cell member => Or.inl (List.mem_cons_of_mem _ member)
        · exact fun cell member => Or.inr (new cell member)
      · rw [Entries.put_of_not_mem absent]
        exact entries

/-! ## Whole merges -/

/-- Laying entries over a mapping one after another, if laying their values over other trees works. -/
theorem mergeValues_make {depth : Nat} {lowers uppers : List (String × Tree)} {refs : List (String × Ref)}
    (holds : Holds memory (.mapping lowers) destination cells) (nodup : cells.Nodup)
    (holds' : HoldsEntries memory uppers refs outside) (apart : ∀ cell ∈ outside, cell ∉ cells)
    (enough : Tree.entriesNodeCount uppers < depth)
    (merges : ∀ {memory : Memory} {lower upper : Tree} {ref source : Ref} {inner outside : List Ref},
      Holds memory lower ref inner → inner.Nodup → Holds memory upper source outside →
      (∀ cell ∈ outside, cell ∉ inner) → upper.nodeCount < depth →
      Makes (mergeInto depth ref source) memory inner (lower.merge upper) ref) :
    Makes (refs.forM (mergeValue (mergeInto depth) (copy depth) destination)) memory cells
      (.mapping (Tree.mergeEntries lowers uppers)) destination := by
  induction uppers generalizing memory cells lowers refs outside with
  | nil =>
    cases holds'
    exact ⟨memory, cells, rfl, .refl nodup, holds⟩
  | cons entry rest ih =>
    cases holds' with
    | @cons key value _ source refs first later head tail =>
      rw [Tree.entriesNodeCount] at enough
      rw [List.forall_mem_append] at apart
      have small : value.nodeCount < depth := by omega
      obtain ⟨memory', cells', run, changes, made⟩ := mergeValue_makes key holds nodup head (Nat.le_of_lt small)
        fun child inner_nodup subset => merges child inner_nodup head
          (fun cell member inner => apart.1 cell member (subset inner)) small
      have tail' := tail.frame fun cell member =>
        changes.others cell (tail.lt_length cell member) (apart.2 cell member)
      have apart' : ∀ cell ∈ later, cell ∉ cells' := fun cell member =>
        changes.apart (tail.lt_length cell member) (apart.2 cell member)
      obtain ⟨memory'', cells'', run', changes', made'⟩ := ih made changes.nodup tail' apart' (by omega)
      refine ⟨memory'', cells'', ?_, changes.trans changes', ?_⟩
      · show (mergeValue _ _ _ _ >>= fun _ => refs.forM _) memory = _
        simp only [bind, StateT.bind, run]
        exact run'
      · rwa [Tree.mergeEntries_cons]

theorem replaceByNull_makes (holds : Holds memory lower destination cells) :
    Makes (replace destination (.scalar .null)) memory cells .null destination := by
  have old := holds.lt_length destination holds.mem_root
  refine ⟨memory.set destination (.scalar .null), [destination], rfl, ⟨?_, ?_, by simp, ?_⟩, ?_⟩
  · exact List.length_set ▸ Nat.le_refl _
  · intro cell _ other
    have different : destination ≠ cell := fun same => other (same ▸ holds.mem_root)
    exact List.getElem?_set_ne different
  · exact List.forall_mem_singleton.2 (Or.inl holds.mem_root)
  · exact .scalar rfl (List.getElem?_set_self old)

theorem mergeInto_succ {depth : Nat} {content content' : Content} (kept : memory[destination]? = some content)
    (kept' : memory[source]? = some content') :
    mergeInto (depth + 1) destination source memory =
      (match content, content' with
        | _, .scalar .null => replace destination (.scalar .null)
        | .scalar .null, _ => replaceByCopy (copy depth) destination source
        | .mapping _, .mapping uppers => uppers.forM (mergeValue (mergeInto depth) (copy depth) destination)
        | _, _ => replaceByCopy (copy depth) destination source) memory := by
  rw [mergeInto]
  simp only [bind, StateT.bind, read, kept, kept', Option.map, Option.bind]

/-- Merging in place makes the merged tree, and changes only the cells of the lower tree. -/
theorem mergeInto_makes {depth : Nat} (holds : Holds memory lower destination cells) (nodup : cells.Nodup)
    (holds' : Holds memory upper source outside) (apart : ∀ cell ∈ outside, cell ∉ cells)
    (enough : upper.nodeCount < depth) :
    Makes (mergeInto depth destination source) memory cells (lower.merge upper) destination := by
  induction depth generalizing memory lower upper destination source cells outside with
  | zero => exact absurd enough (Nat.not_lt_zero _)
  | succ depth ih =>
    have copies := replaceByCopy_makes holds holds' (Nat.le_of_lt_succ enough)
    have nulls := replaceByNull_makes holds
    have entries {lowers uppers : List (String × Tree)} {refs : List (String × Ref)} {below : List Ref}
        (holds : Holds memory (.mapping lowers) destination cells) (inner : HoldsEntries memory uppers refs below)
        (apart : ∀ cell ∈ below, cell ∉ cells) (enough : Tree.entriesNodeCount uppers < depth) :
        Makes (refs.forM (mergeValue (mergeInto depth) (copy depth) destination)) memory cells
          (.mapping (Tree.mergeEntries lowers uppers)) destination :=
      mergeValues_make holds nodup inner apart enough fun child inner_nodup head apart small =>
        ih child inner_nodup head apart small
    unfold Makes at copies nulls entries ⊢
    cases holds' with
    | scalar leaf kept' =>
      obtain ⟨content, _, _, kept, _⟩ := holds.exists_content
      rw [mergeInto_succ kept kept']
      cases upper with
      | null => exact nulls
      | sequence | mapping => cases leaf
      | bool | int | double | string => cases content with
        | scalar node => cases node <;> exact copies
        | sequence | mapping => exact copies
    | sequence kept' _ =>
      obtain ⟨content, _, _, kept, _⟩ := holds.exists_content
      rw [mergeInto_succ kept kept', Tree.merge_of_not_mapping rfl]
      cases content with
      | scalar node => cases node <;> exact copies
      | sequence | mapping => exact copies
    | @mapping uppers refs _ below kept' inner =>
      cases holds with
      | scalar leaf kept =>
        rw [mergeInto_succ kept kept']
        cases lower with
        | sequence | mapping => cases leaf
        | null | bool | int | double | string => exact copies
      | sequence kept _ =>
        rw [mergeInto_succ kept kept']
        exact copies
      | mapping kept lowers =>
        rw [mergeInto_succ kept kept', Tree.merge]
        refine entries (.mapping kept lowers) inner (fun cell member => ?_) ?_
        · exact apart cell (List.mem_cons_of_mem _ member)
        · rw [Tree.nodeCount] at enough
          omega

/-- What changes is apart from a tree that shares no cell with the lower one: it stays, and still shares none. -/
theorem Makes.beside {run : Program Unit} (makes : Makes run memory cells lower destination)
    (holds' : Holds memory upper source outside) (apart : ∀ cell ∈ outside, cell ∉ cells) :
    ∃ memory' cells', run memory = some ((), memory') ∧ Holds memory' lower destination cells'
      ∧ Holds memory' upper source outside ∧ ∀ cell ∈ outside, cell ∉ cells' := by
  obtain ⟨memory', cells', run, changes, made⟩ := makes
  exact ⟨memory', cells', run, made, changes.holds holds' apart, fun cell member =>
    changes.apart (holds'.lt_length cell member) (apart cell member)⟩

/-- Merging into a copy makes the merged tree in new cells, and nothing that was there changes. -/
theorem merged_makes {depth : Nat} (holds : Holds memory lower destination cells)
    (holds' : Holds memory upper source outside) (enough : lower.nodeCount ≤ depth)
    (enough' : upper.nodeCount < depth) :
    ∃ result memory' fresh, merged depth destination source memory = some (result, memory')
      ∧ Holds memory' (lower.merge upper) result fresh ∧ Fresh memory fresh
      ∧ ∀ cell < memory.length, memory'[cell]? = memory[cell]? := by
  obtain ⟨copied, fresh, added, run, copies, nodup, new⟩ := copy_holds holds enough
  have apart {cell : Ref} (old : cell < memory.length) : cell ∉ fresh := fun known => Nat.not_le.2 old (new cell known)
  have longer : memory.length ≤ (memory ++ added).length := List.length_append ▸ Nat.le_add_right _ _
  obtain ⟨memory', cells', run', changes, made⟩ := mergeInto_makes copies nodup (holds'.append added)
    (fun cell member => apart (holds'.lt_length cell member)) enough'
  refine ⟨copied, memory', cells', ?_, made, ⟨changes.nodup, fun cell member => ?_⟩, fun cell old => ?_⟩
  · simp only [merged, bind, StateT.bind, run, Option.bind]
    rw [run']
    rfl
  · rcases changes.origin cell member with known | later
    · exact new cell known
    · exact Nat.le_trans longer later
  · rw [changes.others cell (Nat.lt_of_lt_of_le old longer) (apart old), List.getElem?_append_left old]

/-- Both trees stay when one is merged into a copy of the other, and may share cells. -/
theorem merged_holds {depth : Nat} (holds : Holds memory lower destination cells)
    (holds' : Holds memory upper source outside) (enough : lower.nodeCount ≤ depth)
    (enough' : upper.nodeCount < depth) :
    ∃ result memory' fresh, merged depth destination source memory = some (result, memory')
      ∧ Holds memory' (lower.merge upper) result fresh ∧ Holds memory' lower destination cells
      ∧ Holds memory' upper source outside ∧ ∀ cell ∈ fresh, memory.length ≤ cell := by
  obtain ⟨result, memory', fresh, run, made, ⟨-, new⟩, same⟩ := merged_makes holds holds' enough enough'
  have stays {tree : Tree} {ref : Ref} {cells : List Ref} (holds : Holds memory tree ref cells) :
      Holds memory' tree ref cells := holds.frame fun cell member => same cell (holds.lt_length cell member)
  exact ⟨result, memory', fresh, run, made, stays holds, stays holds', new⟩

/-! ## Path by path -/

/-- Path by path, a merged tree has nothing behind a node of the upper tree that is no mapping, has what the lower tree
has where the upper one ends, the upper tree's node where that is no mapping, and otherwise a mapping with the keys of
the lower tree's mapping before the new ones. Merging in place makes this tree, as merging into a copy does; the upper
tree stays, and beside a copy the lower one too. -/
theorem merge_path_by_path (lower : Tree) {upper : Tree} (distinct : upper.HasDistinctKeys) :
    (∀ path, upper.Blocked path → (lower.merge upper).find path = none)
    ∧ (∀ path, ¬upper.Blocked path → upper.find path = none → (lower.merge upper).find path = lower.find path)
    ∧ (∀ path node, upper.find path = some node → node.isMapping = false →
        (lower.merge upper).find path = some node)
    ∧ (∀ path uppers, upper.find path = some (.mapping uppers) →
        ∃ entries, (lower.merge upper).find path = some (.mapping entries)
          ∧ entries.map Prod.fst = (lower.find path).elim [] Tree.keys
            ++ (uppers.map Prod.fst).filter fun key => key ∉ (lower.find path).elim [] Tree.keys)
    ∧ (∀ memory destination source cells outside depth, Holds memory lower destination cells → cells.Nodup →
        Holds memory upper source outside → (∀ cell ∈ outside, cell ∉ cells) → upper.nodeCount < depth →
        ∃ memory' cells', mergeInto depth destination source memory = some ((), memory')
          ∧ Holds memory' (lower.merge upper) destination cells' ∧ Holds memory' upper source outside
          ∧ ∀ cell ∈ outside, cell ∉ cells')
    ∧ (∀ memory base override cells outside depth, Holds memory lower base cells →
        Holds memory upper override outside → lower.nodeCount ≤ depth → upper.nodeCount < depth →
        ∃ result memory' fresh, merged depth base override memory = some (result, memory')
          ∧ Holds memory' (lower.merge upper) result fresh ∧ Holds memory' lower base cells
          ∧ Holds memory' upper override outside ∧ ∀ cell ∈ fresh, memory.length ≤ cell) := by
  refine ⟨fun path blocked => ?_, fun path free absent => ?_, fun path node found noMapping => ?_,
    fun path uppers found => ?_, ?_, ?_⟩
  · rw [Tree.find_merge lower distinct, blocked.find_eq_none]
    exact if_pos blocked
  · rw [Tree.find_merge lower distinct, absent]
    exact if_neg free
  · rw [Tree.find_merge lower distinct, found]
    cases lower.find path with
    | none => rfl
    | some below => exact congrArg some (Tree.merge_of_not_mapping noMapping below)
  · have keys := ((Tree.nodeAt_of_find found).hasDistinctKeys distinct).1
    rw [Tree.find_merge lower distinct, found]
    cases lower.find path with
    | none => exact ⟨uppers, rfl, (List.filter_eq_self.2 fun _ _ => by simp).symm⟩
    | some below =>
      obtain ⟨entries, same, order⟩ := below.exists_merge_mapping keys
      exact ⟨entries, congrArg some same, order⟩
  · intro memory destination source cells outside depth holds nodup holds' apart enough
    exact (mergeInto_makes holds nodup holds' apart enough).beside holds' apart
  · intro memory base override cells outside depth holds holds' enough enough'
    exact merged_holds holds holds' enough enough'

/-- A mapping with another one inside. -/
def lowerTree : Tree :=
  .mapping [("a", .mapping [("x", .int 1)]), ("b", .int 2)]

/-- A mapping with a null, a new key and a new key further down. -/
def upperTree : Tree :=
  .mapping [("b", .null), ("c", .int 3), ("a", .mapping [("y", .int 4)])]

/-- `lowerTree` in the first four cells, and `upperTree` in the others. -/
def twoTrees : Memory :=
  [.scalar (.int 1), .mapping [("x", 0)], .scalar (.int 2), .mapping [("a", 1), ("b", 2)],
    .scalar .null, .scalar (.int 3), .scalar (.int 4), .mapping [("y", 6)], .mapping [("b", 4), ("c", 5), ("a", 7)]]

theorem holds_lowerTree : Holds twoTrees lowerTree 3 [3, 1, 0, 2] :=
  .mapping rfl (.cons (.mapping rfl (.cons (.scalar rfl rfl) .nil)) (.cons (.scalar rfl rfl) .nil))

theorem holds_upperTree : Holds twoTrees upperTree 8 [8, 4, 5, 7, 6] :=
  .mapping rfl (.cons (.scalar rfl rfl) (.cons (.scalar rfl rfl)
    (.cons (.mapping rfl (.cons (.scalar rfl rfl) .nil)) .nil)))

theorem merge_path_by_path_twoTrees :
    upperTree.HasDistinctKeys
      ∧ (lowerTree.merge upperTree).find ["b", "z"] = none
      ∧ (lowerTree.merge upperTree).find ["a", "x"] = lowerTree.find ["a", "x"]
      ∧ (lowerTree.merge upperTree).find ["b"] = some .null
      ∧ (∃ entries, (lowerTree.merge upperTree).find ["a"] = some (.mapping entries)
          ∧ entries.map Prod.fst = ["x", "y"])
      ∧ (∃ memory' cells', mergeInto 7 3 8 twoTrees = some ((), memory')
          ∧ Holds memory' (lowerTree.merge upperTree) 3 cells' ∧ Holds memory' upperTree 8 [8, 4, 5, 7, 6])
      ∧ (∃ result memory' fresh, merged 7 3 8 twoTrees = some (result, memory')
          ∧ Holds memory' (lowerTree.merge upperTree) result fresh ∧ Holds memory' lowerTree 3 [3, 1, 0, 2]
          ∧ Holds memory' upperTree 8 [8, 4, 5, 7, 6]) := by
  have distinct : upperTree.HasDistinctKeys := by decide
  obtain ⟨blocked, kept, replaced, combined, inPlace, beside⟩ := merge_path_by_path lowerTree distinct
  refine ⟨distinct, blocked ["b", "z"] ?_, kept ["a", "x"] ?_ rfl, replaced ["b"] .null rfl rfl, combined ["a"] _ rfl,
    ?_, ?_⟩
  · exact ⟨["b"], .null, by simp, by simp, rfl, rfl⟩
  · rw [Tree.blocked_cons_iff]
    rintro (noMapping | ⟨child, found, blocked⟩)
    · cases noMapping
    · cases found
      rcases Tree.blocked_cons_iff.1 blocked with noMapping | ⟨child, found, -⟩
      · cases noMapping
      · cases found
  · obtain ⟨memory', cells', run, made, stays, -⟩ :=
      inPlace twoTrees 3 8 _ _ 7 holds_lowerTree (by decide) holds_upperTree (by decide) (by decide)
    exact ⟨memory', cells', run, made, stays⟩
  · obtain ⟨result, memory', fresh, run, made, stays, stays', -⟩ :=
      beside twoTrees 3 8 _ _ 7 holds_lowerTree holds_upperTree (by decide) (by decide)
    exact ⟨result, memory', fresh, run, made, stays, stays'⟩

end LayeredConfig.Memory
