import LayeredConfig.Proofs.Interpolation.Supported

/-!
# A run of settling

`Meets` says of an action what it leaves when it succeeds, and why it fails and what it leaves then. Settling keeps the list
of what is done `Supported`, also when it fails, and only adds to it nodes that were free (`Grows`); it fails for a `Fault`, a
cycle of dependences or a flawed string. `settle_meets` carries this through the five functions, by their own recursion.

A node that is not free waits for the node that is to be settled (`Awaited`), so a reference to it closes a cycle.
-/

namespace LayeredConfig.Interpolation

open Relation

/-! ## Running an action -/

section

variable {α β : Type} (progress : Progress)

theorem run_pure (a : α) : (pure a : Settling α) progress = .ok a progress :=
  rfl

theorem run_throw (e : Error) : (throw e : Settling α) progress = .error e progress :=
  rfl

theorem run_get : (get : Settling Progress) progress = .ok progress progress :=
  rfl

theorem run_bind (action : Settling α) (next : α → Settling β) :
    (action >>= next) progress
      = match action progress with
        | .ok a after => next a after
        | .error e after => .error e after := by
  show EStateM.bind action next progress = _
  rw [EStateM.bind]
  cases action progress <;> rfl

theorem run_finish (path : KeyPath) (text : Option String) :
    Settling.finish path text progress = .ok () ⟨(path, text) :: progress.done, progress.log⟩ :=
  rfl

theorem run_record (record : Record) :
    Settling.record record progress = .ok () ⟨progress.done, progress.log ++ [record]⟩ :=
  rfl

end

/-- What an action leaves when it succeeds, and the error and what is left when it fails. -/
def Meets {α : Type} (action : Settling α) (before : Progress) (post : α → Progress → Prop)
    (fault : Error → Progress → Prop) : Prop :=
  match action before with
  | .ok a after => post a after
  | .error e after => fault e after

namespace Meets

variable {α β : Type} {before : Progress} {fault : Error → Progress → Prop}

theorem pure {post : α → Progress → Prop} {a : α} (holds : post a before) :
    Meets (Pure.pure a) before post fault :=
  holds

theorem throw {post : α → Progress → Prop} {e : Error} (holds : fault e before) :
    Meets (MonadExcept.throw e) before post fault :=
  holds

theorem bind {action : Settling α} {next : α → Settling β} {post : β → Progress → Prop}
    (first : Meets action before (fun a middle => Meets (next a) middle post fault) fault) :
    Meets (action >>= next) before post fault := by
  unfold Meets at first ⊢
  rw [run_bind]
  cases run : action before with
  | ok a middle =>
    rw [run] at first
    exact first
  | error e middle =>
    rw [run] at first
    exact first

theorem mono {action : Settling α} {post post' : α → Progress → Prop}
    (weaker : ∀ a after, post a after → post' a after) (meets : Meets action before post fault) :
    Meets action before post' fault := by
  unfold Meets at meets ⊢
  cases run : action before with
  | ok a after =>
    rw [run] at meets
    exact weaker a after meets
  | error e after =>
    rw [run] at meets
    exact meets

theorem get {next : Progress → Settling β} {post : β → Progress → Prop}
    (rest : Meets (next before) before post fault) :
    Meets (MonadState.get >>= next) before post fault :=
  rest

end Meets

section

variable (surroundings : Surroundings) (tree : Tree)

/-- Why settling fails: a node that depends on itself is named, or a string is flawed. -/
def Fault (e : Error) : Prop :=
  (∃ path, e = .interpolationCycle path ∧ TransGen (Depends surroundings tree) path path)
    ∨ ((∀ path, e ≠ .interpolationCycle path) ∧ Flawed surroundings tree)

/-- Settling breaks off for a fault, and what is done by then is supported. -/
def BreaksOff (e : Error) (after : Progress) : Prop :=
  Fault surroundings tree e ∧ Supported surroundings tree after.done

/-- What is done stays supported, and only nodes that were free are added to it. -/
structure Grows (free : List KeyPath) (before after : Progress) : Prop where
  supported : Supported surroundings tree after.done
  added : ∃ newer, after.done = newer ++ before.done ∧ ∀ path ∈ newer.map Prod.fst, path ∈ free

/-- Every node that is not free waits for the node at a path. -/
def Awaited (free : List KeyPath) (path : KeyPath) : Prop :=
  ∀ holder node, tree.NodeAt holder node → holder ∉ free → TransGen (Depends surroundings tree) holder path

/-- Every node that is not free waits for the node at a path, or is that node. -/
def Opened (free : List KeyPath) (path : KeyPath) : Prop :=
  ∀ holder node, tree.NodeAt holder node → holder ∉ free →
    ReflTransGen (Depends surroundings tree) holder path

end

variable {surroundings : Surroundings} {tree : Tree}

namespace Grows

variable {free : List KeyPath} {before middle after : Progress}

theorem refl (supported : Supported surroundings tree before.done) :
    Grows surroundings tree free before before :=
  ⟨supported, [], rfl, by simp⟩

theorem trans (first : Grows surroundings tree free before middle)
    (last : Grows surroundings tree free middle after) : Grows surroundings tree free before after := by
  obtain ⟨-, newer, same, fresh⟩ := first
  obtain ⟨supported, newest, same', fresh'⟩ := last
  refine ⟨supported, newest ++ newer, by rw [same', same, List.append_assoc], ?_⟩
  intro path member
  rw [List.map_append] at member
  rcases List.mem_append.1 member with member | member
  · exact fresh' path member
  · exact fresh path member

theorem mem (grows : Grows surroundings tree free before after) {path : KeyPath}
    (member : path ∈ before.done.map Prod.fst) : path ∈ after.done.map Prod.fst := by
  obtain ⟨-, newer, same, -⟩ := grows
  rw [same, List.map_append]
  exact List.mem_append_right _ member

theorem shown (grows : Grows surroundings tree free before after) {target : KeyPath} {text : List Char}
    (shown : Shown tree before.done target text) : Shown tree after.done target text := by
  obtain ⟨supported, newer, same, -⟩ := grows
  rw [same] at supported ⊢
  exact shown.append supported

end Grows

/-! ## Single steps -/

theorem isDone_iff {progress : Progress} {path : KeyPath} :
    progress.isDone path = true ↔ path ∈ progress.done.map Prod.fst := by
  rw [Progress.isDone, List.lookup_isSome_iff, List.mem_map]
  constructor
  · intro holds
    rcases holds with ⟨entry, known, same⟩
    exact ⟨entry, known, (eq_of_beq same).symm⟩
  · intro holds
    rcases holds with ⟨entry, known, rfl⟩
    exact ⟨entry, known, beq_self_eq_true _⟩

theorem exists_lookup {done : List (KeyPath × Option String)} {path : KeyPath}
    (member : path ∈ done.map Prod.fst) : ∃ entry, done.lookup path = some entry := by
  obtain ⟨entry, known, rfl⟩ := List.mem_map.1 member
  exact Option.isSome_iff_exists.1 (List.lookup_isSome_iff.2 ⟨entry, known, beq_self_eq_true _⟩)

theorem current_of_lookup {progress : Progress} {path : KeyPath} {entry : Option String}
    (known : progress.done.lookup path = some entry) (node : Tree) :
    progress.current path node = entry.elim node Tree.string := by
  rw [Progress.current, Progress.text?, known]
  cases entry <;> rfl

/-- Only a container has no plain text, with or without a text of its own. -/
theorem container_of_plainText {node : Tree} {entry : Option String} {e : Error}
    (fails : (entry.elim node Tree.string).plainText = .error e) :
    node.isContainer = true ∧ ∃ kind, e = .containerInterpolated kind := by
  cases entry with
  | some text => cases fails
  | none =>
    cases node with
    | sequence | mapping =>
      cases fails
      exact ⟨rfl, _, rfl⟩
    | null | bool | int | double | string => cases fails

theorem ne_cycle_of_parse {expression : String} {e : Error} (fails : KeyPath.parse expression = .error e)
    (path : KeyPath) : e ≠ .interpolationCycle path := by
  rintro rfl
  exact nomatch KeyPath.category_of_parse fails

/-! ## What a node waits for -/

theorem children_of_mapping {path : KeyPath} {entries : List (String × Tree)}
    (stands : tree.NodeAt path (.mapping entries)) :
    Tree.AllEntries (fun address value => tree.NodeAt address value ∧ Depends surroundings tree path address)
      path entries :=
  Tree.allEntries_iff.2 fun _ _ member => ⟨stands.entry member, .entry stands member⟩

theorem children_of_sequence {path : KeyPath} {items : List Tree}
    (stands : tree.NodeAt path (.sequence items)) :
    Tree.AllItems (fun address item => tree.NodeAt address item ∧ Depends surroundings tree path address)
      path 0 items :=
  Tree.allItems_zero_iff.2 fun _ _ found => ⟨stands.item found, .item stands found⟩

theorem below_of_entries (distinct : tree.HasDistinctKeys) {path : KeyPath} {entries : List (String × Tree)}
    (stands : tree.NodeAt path (.mapping entries)) {done : List KeyPath}
    (dones : Tree.AllEntries (fun address _ => address ∈ done) path entries) (target : KeyPath)
    (depends : Depends surroundings tree path target) : target ∈ done := by
  obtain ⟨key, value, member, rfl⟩ := depends_cases distinct stands depends
  exact Tree.allEntries_iff.1 dones key value member

theorem below_of_items (distinct : tree.HasDistinctKeys) {path : KeyPath} {items : List Tree}
    (stands : tree.NodeAt path (.sequence items)) {done : List KeyPath}
    (dones : Tree.AllItems (fun address _ => address ∈ done) path 0 items) (target : KeyPath)
    (depends : Depends surroundings tree path target) : target ∈ done := by
  obtain ⟨position, item, found, rfl⟩ := depends_cases distinct stands depends
  exact Tree.allItems_zero_iff.1 dones position item found

/-- A string that expands has read all that it refers to. -/
theorem below_of_expands (distinct : tree.HasDistinctKeys) {path : KeyPath} {text : String}
    (stands : tree.NodeAt path (.string text)) {done : List (KeyPath × Option String)} {filled : List Char}
    (expands : Expands surroundings (Shown tree done) text.toList filled) (target : KeyPath)
    (depends : Depends surroundings tree path target) : target ∈ done.map Prod.fst := by
  obtain ⟨expression, _, evaluates, parses, -⟩ := depends_cases distinct stands depends
  obtain ⟨target', _, parses', _, _, _, known, -⟩ := expands.of_evaluates evaluates
  cases parses.symm.trans parses'
  exact Entries.mem_keys_of_lookup known

/-! ## Finishing a node -/

/-- A node may be finished when all that it depends on is done. -/
theorem Meets.finish {free : List KeyPath} (nodup : free.Nodup) {path : KeyPath} (free_path : path ∈ free)
    {before middle : Progress} (undone : path ∉ before.done.map Prod.fst)
    (grows : Grows surroundings tree (free.erase path) before middle) {node : Tree} {entry : Option String}
    (stands : tree.NodeAt path node)
    (below : ∀ target, Depends surroundings tree path target → target ∈ middle.done.map Prod.fst)
    (gets : Gets surroundings tree middle.done node entry) :
    Meets (Settling.finish path entry) middle (fun _ after =>
      Grows surroundings tree free before after ∧ path ∈ after.done.map Prod.fst)
      (BreaksOff surroundings tree) := by
  obtain ⟨supported, newer, same, added⟩ := grows
  have fresh : path ∉ middle.done.map Prod.fst := by
    rw [same, List.map_append, List.mem_append]
    intro holds
    rcases holds with member | member
    · exact nodup.not_mem_erase (added path member)
    · exact undone member
  refine ⟨⟨.cons stands fresh below gets supported, (path, entry) :: newer, ?_, ?_⟩, List.mem_cons_self⟩
  · show (path, entry) :: middle.done = _
    rw [same, List.cons_append]
  · intro other member
    rcases List.mem_cons.1 member with rfl | member
    · exact free_path
    · exact List.mem_of_mem_erase (added other member)

theorem Opened.awaited {free : List KeyPath} {path target : KeyPath}
    (opened : Opened surroundings tree free path) (depends : Depends surroundings tree path target) :
    Awaited surroundings tree free target :=
  fun holder node stands busy => .tail' (opened holder node stands busy) depends

theorem Awaited.opened {free : List KeyPath} {path : KeyPath}
    (awaited : Awaited surroundings tree free path) : Opened surroundings tree (free.erase path) path := by
  intro holder node stands busy
  by_cases same : holder = path
  · subst same
    exact .refl
  · have free_holder : holder ∉ free := fun member => busy ((List.mem_erase_of_ne same).2 member)
    exact (awaited holder node stands free_holder).to_reflTransGen

/-! ## The run -/

mutual

/-- Settling a node that all busy nodes wait for leaves it done, or breaks off. -/
theorem settle_meets (distinct : tree.HasDistinctKeys) {free : List KeyPath} (nodup : free.Nodup)
    {path : KeyPath} {node : Tree} (stands : tree.NodeAt path node)
    (awaited : Awaited surroundings tree free path) {before : Progress}
    (supported : Supported surroundings tree before.done) :
    Meets (settle surroundings tree free path node) before (fun _ after =>
      Grows surroundings tree free before after ∧ path ∈ after.done.map Prod.fst)
      (BreaksOff surroundings tree) := by
  rw [settle.eq_def]
  refine Meets.get ?_
  split
  · next done => exact Meets.pure ⟨.refl supported, isDone_iff.1 done⟩
  · next undone =>
    rw [isDone_iff] at undone
    split
    · next free_path =>
      have shorter := length_erase_lt free_path
      have nodup' : (free.erase path).Nodup := nodup.erase path
      have opened := awaited.opened
      split
      · next entries =>
        have run := settleEntries_meets distinct nodup' opened entries (children_of_mapping stands) supported
        refine Meets.bind (run.mono ?_)
        intro _ middle meets
        rcases meets with ⟨grows, dones⟩
        exact Meets.finish nodup free_path undone grows stands (below_of_entries distinct stands dones) rfl
      · next items =>
        have run := settleItems_meets distinct nodup' opened items 0 (children_of_sequence stands) supported
        refine Meets.bind (run.mono ?_)
        intro _ middle meets
        rcases meets with ⟨grows, dones⟩
        exact Meets.finish nodup free_path undone grows stands (below_of_items distinct stands dones) rfl
      · next text =>
        split
        · have run := fill_meets distinct nodup' opened stands (Template.parse text.toList)
            (fun piece reaches => reaches) supported
          refine Meets.bind (run.mono ?_)
          intro filled middle meets
          rcases meets with ⟨grows, given⟩
          have expands := filled_parse_iff.1 given
          refine Meets.finish nodup free_path undone grows stands (below_of_expands distinct stands expands) ?_
          rw [Gets, Option.getD_some, String.toList_ofList]
          exact expands
        · next noMarker =>
          rw [Bool.not_eq_true] at noMarker
          have expands : Expands surroundings (Shown tree before.done) text.toList text.toList :=
            .literal noMarker
          exact Meets.finish nodup free_path undone (.refl supported) stands
            (below_of_expands distinct stands expands) expands
      · next noMapping noSequence noString =>
        cases node with
        | mapping entries => exact absurd rfl (noMapping entries)
        | sequence items => exact absurd rfl (noSequence items)
        | string text => exact absurd rfl (noString text)
        | null | bool | int | double =>
          refine Meets.finish nodup free_path undone (.refl supported) stands (fun target depends => ?_) rfl
          cases depends_cases distinct stands depends
    · next busy =>
      exact Meets.throw ⟨Or.inl ⟨path, rfl, awaited path node stands busy⟩, supported⟩
termination_by (free.length, 0, 0)

theorem settleItems_meets (distinct : tree.HasDistinctKeys) {free : List KeyPath} (nodup : free.Nodup)
    {path : KeyPath} (opened : Opened surroundings tree free path) (items : List Tree) (start : Nat)
    (children : Tree.AllItems (fun address item =>
      tree.NodeAt address item ∧ Depends surroundings tree path address) path start items)
    {before : Progress} (supported : Supported surroundings tree before.done) :
    Meets (settleItems surroundings tree free path start items) before (fun _ after =>
      Grows surroundings tree free before after
        ∧ Tree.AllItems (fun address _ => address ∈ after.done.map Prod.fst) path start items)
      (BreaksOff surroundings tree) := by
  cases items with
  | nil =>
    rw [settleItems]
    exact Meets.pure ⟨.refl supported, trivial⟩
  | cons item rest =>
    rw [settleItems]
    obtain ⟨⟨stands, depends⟩, children⟩ := children
    have first := settle_meets distinct nodup stands (opened.awaited depends) supported
    refine Meets.bind (first.mono ?_)
    intro _ middle meets
    rcases meets with ⟨grows, done⟩
    have later := settleItems_meets distinct nodup opened rest (start + 1) children grows.supported
    refine later.mono ?_
    intro _ after meets
    rcases meets with ⟨grows', dones⟩
    exact ⟨grows.trans grows', grows'.mem done, dones⟩
termination_by (free.length, 1, sizeOf items)

theorem settleEntries_meets (distinct : tree.HasDistinctKeys) {free : List KeyPath} (nodup : free.Nodup)
    {path : KeyPath} (opened : Opened surroundings tree free path) (entries : List (String × Tree))
    (children : Tree.AllEntries (fun address value =>
      tree.NodeAt address value ∧ Depends surroundings tree path address) path entries)
    {before : Progress} (supported : Supported surroundings tree before.done) :
    Meets (settleEntries surroundings tree free path entries) before (fun _ after =>
      Grows surroundings tree free before after
        ∧ Tree.AllEntries (fun address _ => address ∈ after.done.map Prod.fst) path entries)
      (BreaksOff surroundings tree) := by
  cases entries with
  | nil =>
    rw [settleEntries]
    exact Meets.pure ⟨.refl supported, trivial⟩
  | cons entry rest =>
    obtain ⟨key, value⟩ := entry
    rw [settleEntries]
    obtain ⟨⟨stands, depends⟩, children⟩ := children
    have first := settle_meets distinct nodup stands (opened.awaited depends) supported
    refine Meets.bind (first.mono ?_)
    intro _ middle meets
    rcases meets with ⟨grows, done⟩
    have later := settleEntries_meets distinct nodup opened rest children grows.supported
    refine later.mono ?_
    intro _ after meets
    rcases meets with ⟨grows', dones⟩
    exact ⟨grows.trans grows', grows'.mem done, dones⟩
termination_by (free.length, 1, sizeOf entries)

theorem fill_meets (distinct : tree.HasDistinctKeys) {free : List KeyPath} (nodup : free.Nodup)
    {path : KeyPath} (opened : Opened surroundings tree free path) {text : String}
    (leaf : tree.NodeAt path (.string text)) (template : Template)
    (within : ∀ piece, Reaches surroundings template piece →
      Reaches surroundings (Template.parse text.toList) piece)
    {before : Progress} (supported : Supported surroundings tree before.done) :
    Meets (fill surroundings tree free path template) before (fun filled after =>
      Grows surroundings tree free before after
        ∧ Filled surroundings (Shown tree after.done) template filled)
      (BreaksOff surroundings tree) := by
  cases template with
  | nil =>
    rw [fill]
    exact Meets.pure ⟨.refl supported, rfl⟩
  | cons piece rest =>
    rw [fill]
    have first := fillPiece_meets distinct nodup opened leaf piece
      (fun other reaches => within other (by
        rcases reaches_cons_iff.1 reaches with same | inner | none
        · exact reaches_cons_iff.2 (Or.inl same)
        · exact reaches_cons_iff.2 (Or.inr (Or.inl inner))
        · exact absurd none (not_reaches_nil other))) supported
    refine Meets.bind (first.mono ?_)
    intro part middle meets
    rcases meets with ⟨grows, given⟩
    have later := fill_meets distinct nodup opened leaf rest
      (fun other reaches => within other reaches.cons) grows.supported
    refine Meets.bind (later.mono ?_)
    intro more after meets
    rcases meets with ⟨grows', filled⟩
    exact Meets.pure ⟨grows.trans grows', part, more, given.mono (fun _ _ => grows'.shown), filled, rfl⟩
termination_by (free.length, 1, sizeOf template)

theorem fillPiece_meets (distinct : tree.HasDistinctKeys) {free : List KeyPath} (nodup : free.Nodup)
    {path : KeyPath} (opened : Opened surroundings tree free path) {text : String}
    (leaf : tree.NodeAt path (.string text)) (piece : Piece)
    (within : ∀ other, Reaches surroundings [piece] other →
      Reaches surroundings (Template.parse text.toList) other)
    {before : Progress} (supported : Supported surroundings tree before.done) :
    Meets (fillPiece surroundings tree free path piece) before (fun filled after =>
      Grows surroundings tree free before after
        ∧ PieceFilled surroundings (Shown tree after.done) piece filled)
      (BreaksOff surroundings tree) := by
  have reached := within piece (.here List.mem_cons_self)
  cases piece with
  | literal part =>
    rw [fillPiece]
    exact Meets.pure ⟨.refl supported, rfl⟩
  | now pattern =>
    rw [fillPiece]
    exact Meets.pure ⟨.refl supported, rfl⟩
  | «variable» name fallback =>
    rw [fillPiece]
    split
    · next set found =>
      refine Meets.pure ⟨.refl supported, ?_⟩
      rw [PieceFilled, found]
    · next unset =>
      split
      · next empty =>
        refine Meets.pure ⟨.refl supported, ?_⟩
        rw [PieceFilled, unset, List.isEmpty_iff.1 empty]
        rfl
      · refine Meets.bind ?_
        have recorded : Supported surroundings tree
            (Progress.mk before.done (before.log ++ [fallbackRecord name path])).done := supported
        have inside := fill_meets distinct nodup opened leaf fallback
          (fun other reaches => within other (.fallback List.mem_cons_self unset reaches)) recorded
        refine inside.mono ?_
        intro filled after meets
        rcases meets with ⟨grows, given⟩
        refine ⟨⟨grows.supported, grows.added⟩, ?_⟩
        rw [PieceFilled, unset]
        exact given
  | reference expression =>
    rw [fillPiece]
    have evaluates := (reaches_reference_iff _ _ expression).1 reached
    have flawed (fails : ¬Resolves tree expression) : Flawed surroundings tree :=
      ⟨path, text, leaf, Or.inr ⟨expression, evaluates, fails⟩⟩
    refine Meets.bind ?_
    cases parses : KeyPath.parse (String.ofList expression) with
    | error e =>
      exact Meets.throw ⟨Or.inr ⟨ne_cycle_of_parse parses, flawed (not_resolves_of_error parses)⟩, supported⟩
    | ok target =>
      refine Meets.pure ?_
      split
      · next absent =>
        exact Meets.throw ⟨Or.inr ⟨nofun, flawed (not_resolves_of_absent parses absent)⟩, supported⟩
      · next node found =>
        have depends : Depends surroundings tree path target :=
          .reference ⟨text, expression, node, leaf, evaluates, parses, found⟩
        have run := settle_meets distinct nodup (Tree.nodeAt_of_find found) (opened.awaited depends) supported
        refine Meets.bind (run.mono ?_)
        intro _ middle meets
        rcases meets with ⟨grows, done⟩
        refine Meets.get ?_
        obtain ⟨entry, known⟩ := exists_lookup done
        rw [current_of_lookup known]
        cases plain : (entry.elim node Tree.string).plainText with
        | ok part => exact Meets.pure ⟨grows, target, parses, node, entry, found, known, plain⟩
        | error e =>
          obtain ⟨container, kind, rfl⟩ := container_of_plainText plain
          have unresolved := flawed (not_resolves_of_container parses found container)
          exact Meets.throw ⟨Or.inr ⟨nofun, unresolved⟩, grows.supported⟩
  | unclosed part =>
    rw [fillPiece]
    refine Meets.throw ⟨Or.inr ⟨nofun, path, text, leaf, Or.inl fun closed => ?_⟩, supported⟩
    exact (closed_iff surroundings _ _).1 closed part reached
termination_by (free.length, 1, sizeOf piece)

end

end LayeredConfig.Interpolation
