import LayeredConfig.Proofs.Interpolation.FinalValues
import LayeredConfig.Proofs.Interpolation.Stepwise

/-!
# Settling ends

What a step does to the open nodes is said once, in `Change`: it opens a node, keeps the open nodes as they are,
finishes the innermost one or breaks it off. From this come the facts about a whole run. At every moment the open nodes
are distinct, they are those that are marked, and none of them is done (`Consistent`). A node that has been opened once
is open, done or given up with everything else from then on (`Passed`), so no string is expanded twice by the call of
its own node. The run ends, since it comes to the outcome of `settle`.
-/

namespace LayeredConfig.Interpolation

open Relation

variable {surroundings : Surroundings} {tree : Tree} {conf next : Conf}

namespace Task

/-- Whether a template is called. -/
def isTemplate : Task → Bool
  | .call (.template ..) => true
  | _ => false

/-- Whether a part of a template is called. -/
def isPiece : Task → Bool
  | .call (.piece ..) => true
  | _ => false

/-- Whether the run is failing. -/
def isFailure : Task → Bool
  | .fails _ => true
  | _ => false

end Task

namespace Conf

/-- The string at a path is about to be expanded by the call of its own node. -/
def Expands (conf : Conf) (path : KeyPath) : Prop :=
  ∃ template, conf.task = .call (.template path template) ∧ conf.frames.head? = some (.opened path)

/-- A part of a template is called below the frame of that template. -/
def Framed (conf : Conf) : Prop :=
  ∀ path piece, conf.task = .call (.piece path piece) → ∃ rest, conf.frames.head? = some (.template path rest)

/-- The open nodes are distinct, they are those that are marked, and none is done. -/
structure Consistent (conf : Conf) : Prop where
  nodup : conf.openPaths.Nodup
  marked : conf.marked = conf.openPaths.toFinset
  undone : ∀ path ∈ conf.openPaths, conf.progress.isDone path = false

/-- A node is open or done, or the run has failed. -/
def Passed (conf : Conf) (path : KeyPath) : Prop :=
  path ∈ conf.openPaths ∨ conf.progress.isDone path = true ∨ ∃ e, conf.task = .fails e

/-- What a moment leaves: the tree as it then is, the failure if there is one, and the records made. -/
def interpolated (tree : Tree) (conf : Conf) : Interpolated :=
  ⟨conf.progress.apply tree, match conf.task with | .fails e => some e | _ => none, conf.progress.log⟩

end Conf

/-- What a step does to the open nodes. -/
inductive Change (conf next : Conf) : Prop
  /-- The call of a node passes both checks. -/
  | opens (path : KeyPath) (node : Tree) (called : conf.task = .call (.node path node))
    (undone : conf.progress.isDone path = false) (unmarked : path ∉ conf.marked)
    (same : next = ⟨openTask path node, .opened path :: conf.frames, insert path conf.marked, conf.progress⟩)
  /-- Nothing happens to the open nodes or to what is done. -/
  | keeps (openPaths : next.openPaths = conf.openPaths) (marked : next.marked = conf.marked)
    (done : next.progress.done = conf.progress.done)
    (fails : ∀ e, conf.task = .fails e → next.task = .fails e) (quiet : ∀ path, ¬next.Expands path)
    (framed : next.Framed)
  /-- The innermost open node is done. -/
  | finishes (path : KeyPath) (frames : List Frame) (text : Option String) (log : List Record)
    (waiting : conf.frames = .opened path :: frames) (running : ∀ e, conf.task ≠ .fails e)
    (same : next = ⟨.returns none, frames, conf.marked.erase path, ⟨(path, text) :: conf.progress.done, log⟩⟩)
  /-- The innermost open node is given up for a failure. -/
  | breaksOff (path : KeyPath) (frames : List Frame) (e : Error)
    (waiting : conf.frames = .opened path :: frames)
    (same : next = ⟨.fails e, frames, conf.marked.erase path, conf.progress⟩)

/-! ## What a step does -/

theorem Conf.not_expands (noTemplate : conf.task.isTemplate = false) (path : KeyPath) : ¬conf.Expands path := by
  rintro ⟨template, called, -⟩
  rw [called] at noTemplate
  cases noTemplate

theorem Conf.framed_of_task (noPiece : conf.task.isPiece = false) : conf.Framed := by
  intro path piece called
  rw [called] at noPiece
  cases noPiece

theorem Conf.ne_fails (running : conf.task.isFailure = false) (e : Error) : conf.task ≠ .fails e := by
  intro fails
  rw [fails] at running
  cases running

/-- A step that keeps the open nodes and goes on to neither a template nor a part of one. -/
theorem Change.keeps_of_task (openPaths : next.openPaths = conf.openPaths) (marked : next.marked = conf.marked)
    (done : next.progress.done = conf.progress.done) (running : conf.task.isFailure = false)
    (noTemplate : next.task.isTemplate = false) (noPiece : next.task.isPiece = false) : Change conf next :=
  .keeps openPaths marked done (fun e fails => absurd fails (Conf.ne_fails running e)) (Conf.not_expands noTemplate)
    (Conf.framed_of_task noPiece)

theorem change_of_call {call : Call} {frames : List Frame} {marked : Finset KeyPath} {progress : Progress}
    (framed : (Conf.mk (.call call) frames marked progress).Framed) :
    Change ⟨.call call, frames, marked, progress⟩
      (Conf.enter surroundings tree ⟨.call call, frames, marked, progress⟩ call) := by
  cases call with
  | node path node =>
    rw [Conf.enter]
    split
    · exact .keeps_of_task rfl rfl rfl rfl rfl rfl
    · next undone =>
      split
      · exact .keeps_of_task rfl rfl rfl rfl rfl rfl
      · next unmarked => exact .opens path node rfl (Bool.not_eq_true _ ▸ undone) unmarked rfl
  | items path position items =>
    cases items with
    | nil => exact .keeps_of_task rfl rfl rfl rfl rfl rfl
    | cons item rest => exact .keeps_of_task rfl rfl rfl rfl rfl rfl
  | entries path entries =>
    cases entries with
    | nil => exact .keeps_of_task rfl rfl rfl rfl rfl rfl
    | cons entry rest => exact .keeps_of_task rfl rfl rfl rfl rfl rfl
  | template path template =>
    cases template with
    | nil => exact .keeps_of_task rfl rfl rfl rfl rfl rfl
    | cons piece rest =>
      refine .keeps rfl rfl rfl (fun e fails => absurd fails (Conf.ne_fails rfl e)) (Conf.not_expands rfl) ?_
      intro path piece called
      cases called
      exact ⟨rest, rfl⟩
  | piece path piece =>
    cases piece with
    | literal | now | unclosed => exact .keeps_of_task rfl rfl rfl rfl rfl rfl
    | «variable» name fallback =>
      rw [Conf.enter]
      split
      · exact .keeps_of_task rfl rfl rfl rfl rfl rfl
      · split
        · exact .keeps_of_task rfl rfl rfl rfl rfl rfl
        · refine .keeps rfl rfl rfl (fun e fails => absurd fails (Conf.ne_fails rfl e)) (fun other expands => ?_)
            (Conf.framed_of_task rfl)
          -- The fallback is called below the frame of the template, not below that of the node.
          obtain ⟨template, -, head⟩ := expands
          obtain ⟨rest, head'⟩ := framed path _ rfl
          cases head.symm.trans head'
    | reference expression =>
      rw [Conf.enter]
      split
      · exact .keeps_of_task rfl rfl rfl rfl rfl rfl
      · split
        · exact .keeps_of_task rfl rfl rfl rfl rfl rfl
        · exact .keeps_of_task rfl rfl rfl rfl rfl rfl

theorem change_of_resume {text : Option (List Char)} {frame : Frame} {frames : List Frame} {marked : Finset KeyPath}
    {progress : Progress} :
    Change ⟨.returns text, frame :: frames, marked, progress⟩
      (Conf.resume ⟨.returns text, frames, marked, progress⟩ text frame) := by
  cases frame with
  | opened path => exact .finishes path frames (text.map String.ofList) progress.log rfl (Conf.ne_fails rfl) rfl
  | items | entries | join => exact .keeps_of_task rfl rfl rfl rfl rfl rfl
  | template path rest =>
    refine .keeps rfl rfl rfl (fun e fails => absurd fails (Conf.ne_fails rfl e)) (fun other expands => ?_)
      (Conf.framed_of_task rfl)
    obtain ⟨template, -, head⟩ := expands
    cases head
  | reference target node =>
    rw [Conf.resume]
    split
    · exact .keeps_of_task rfl rfl rfl rfl rfl rfl
    · exact .keeps_of_task rfl rfl rfl rfl rfl rfl

theorem change_of_step (framed : conf.Framed) (goes : StepsTo surroundings tree conf next) : Change conf next := by
  obtain ⟨task, frames, marked, progress⟩ := conf
  cases task with
  | call call =>
    cases goes
    exact change_of_call framed
  | returns text =>
    cases frames with
    | nil => cases goes
    | cons frame frames =>
      cases goes
      exact change_of_resume
  | fails e =>
    cases frames with
    | nil => cases goes
    | cons frame frames =>
      cases goes
      cases frame with
      | opened path => exact .breaksOff path frames e rfl rfl
      | items | entries | template | join | reference =>
        exact .keeps rfl rfl rfl (fun _ same => same) (Conf.not_expands rfl) (Conf.framed_of_task rfl)

/-! ## What every moment of a run keeps -/

theorem openTask_ne_piece (path : KeyPath) (node : Tree) (other : KeyPath) (piece : Piece) :
    openTask path node ≠ .call (.piece other piece) := by
  cases node with
  | string text =>
    rw [openTask]
    split <;> exact nofun
  | null | bool | int | double | sequence | mapping => exact nofun

theorem Change.framed (change : Change conf next) : next.Framed := by
  cases change with
  | opens path node called undone unmarked same =>
    subst same
    exact fun other piece called => absurd called (openTask_ne_piece path node other piece)
  | keeps _ _ _ _ _ framed => exact framed
  | finishes path frames text log waiting running same =>
    subst same
    exact nofun
  | breaksOff path frames e waiting same =>
    subst same
    exact nofun

namespace Conf.Consistent

/-- The innermost open node may be closed. -/
theorem close (consistent : conf.Consistent) {path : KeyPath} {frames : List Frame}
    (waiting : conf.frames = .opened path :: frames) :
    path ∉ frames.filterMap Frame.path? ∧ (frames.filterMap Frame.path?).Nodup
      ∧ conf.marked.erase path = (frames.filterMap Frame.path?).toFinset
      ∧ ∀ other ∈ frames.filterMap Frame.path?, conf.progress.isDone other = false := by
  obtain ⟨nodup, marked, undone⟩ := consistent
  have openPaths : conf.openPaths = path :: frames.filterMap Frame.path? := by
    rw [Conf.openPaths, waiting]
    rfl
  rw [openPaths] at nodup marked undone
  obtain ⟨fresh, nodup⟩ := List.nodup_cons.1 nodup
  refine ⟨fresh, nodup, ?_, fun other member => undone other (List.mem_cons_of_mem _ member)⟩
  rw [marked, List.toFinset_cons, Finset.erase_insert (mt List.mem_toFinset.1 fresh)]

theorem change (consistent : conf.Consistent) (change : Change conf next) : next.Consistent := by
  cases change with
  | opens path node called undone unmarked same =>
    subst same
    have closed : path ∉ conf.openPaths := by rwa [consistent.marked, List.mem_toFinset] at unmarked
    refine ⟨List.nodup_cons.2 ⟨closed, consistent.nodup⟩, ?_,
      List.forall_mem_cons.2 ⟨undone, consistent.undone⟩⟩
    show insert path conf.marked = (path :: conf.openPaths).toFinset
    rw [consistent.marked, List.toFinset_cons]
  | keeps openPaths marked done =>
    refine ⟨openPaths ▸ consistent.nodup, by rw [marked, openPaths, consistent.marked], fun path member => ?_⟩
    rw [Progress.isDone, done]
    exact consistent.undone path (openPaths ▸ member)
  | finishes path frames text log waiting _ same =>
    subst same
    obtain ⟨fresh, nodup, marked, undone⟩ := consistent.close waiting
    refine ⟨nodup, marked, fun other member => ?_⟩
    have apart : other ≠ path := fun same => fresh (same ▸ member)
    rw [Progress.isDone, List.lookup_cons, beq_false_of_ne apart]
    exact undone other member
  | breaksOff path frames e waiting same =>
    subst same
    obtain ⟨-, nodup, marked, undone⟩ := consistent.close waiting
    exact ⟨nodup, marked, undone⟩

theorem start (tree : Tree) : (Conf.start tree).Consistent :=
  ⟨List.nodup_nil, rfl, nofun⟩

end Conf.Consistent

/-- What was open, done or given up stays so. -/
theorem Conf.Passed.change {path : KeyPath} (passed : conf.Passed path) (change : Change conf next) :
    next.Passed path := by
  cases change with
  | opens other node called undone unmarked same =>
    subst same
    rcases passed with opened | done | ⟨e, fails⟩
    · exact Or.inl (List.mem_cons_of_mem _ opened)
    · exact Or.inr (Or.inl done)
    · cases fails.symm.trans called
  | keeps openPaths marked done fails =>
    rcases passed with opened | isDone | ⟨e, failed⟩
    · exact Or.inl (openPaths ▸ opened)
    · rw [Progress.isDone, ← done] at isDone
      exact Or.inr (Or.inl isDone)
    · exact Or.inr (Or.inr ⟨e, fails e failed⟩)
  | finishes other frames text log waiting running same =>
    subst same
    have isDone_iff : (Progress.mk ((other, text) :: conf.progress.done) log).isDone path = true
        ↔ path = other ∨ conf.progress.isDone path = true := by
      rw [isDone_iff, isDone_iff, List.map_cons, List.mem_cons]
    rcases passed with opened | done | ⟨e, fails⟩
    · rw [Conf.openPaths, waiting] at opened
      rcases List.mem_cons.1 opened with same | opened
      · exact Or.inr (Or.inl (isDone_iff.2 (Or.inl same)))
      · exact Or.inl opened
    · exact Or.inr (Or.inl (isDone_iff.2 (Or.inr done)))
    · exact absurd fails (running e)
  | breaksOff other frames e waiting same =>
    subst same
    exact Or.inr (Or.inr ⟨e, rfl⟩)

/-- The string that is being expanded is open. -/
theorem Conf.Expands.passed {path : KeyPath} (expands : conf.Expands path) : conf.Passed path := by
  obtain ⟨template, -, head⟩ := expands
  refine Or.inl (List.mem_filterMap.2 ⟨.opened path, ?_, rfl⟩)
  exact List.mem_of_mem_head? head

/-- A string is expanded by the call of its own node only when nothing has come of that node before. -/
theorem Conf.Consistent.not_passed_of_expands (consistent : conf.Consistent) (change : Change conf next)
    {path : KeyPath} (expands : next.Expands path) : ¬conf.Passed path := by
  cases change with
  | opens other node called undone unmarked same =>
    subst same
    obtain ⟨template, -, head⟩ := expands
    cases head
    rw [consistent.marked, List.mem_toFinset] at unmarked
    intro passed
    rcases passed with opened | done | ⟨e, fails⟩
    · exact unmarked opened
    · exact absurd done (by rw [undone]; exact Bool.false_ne_true)
    · cases fails.symm.trans called
  | keeps _ _ _ _ quiet => exact absurd expands (quiet path)
  | finishes other frames text log waiting running same =>
    subst same
    exact nomatch expands
  | breaksOff other frames e waiting same =>
    subst same
    exact nomatch expands

/-! ## Whole runs -/

theorem consistent_of_reach (reach : Reach surroundings tree (.start tree) conf) :
    conf.Framed ∧ conf.Consistent := by
  induction reach with
  | refl => exact ⟨nofun, .start tree⟩
  | tail _ goes ih =>
    obtain ⟨framed, consistent⟩ := ih
    have change := change_of_step framed goes
    exact ⟨change.framed, consistent.change change⟩

/-- A string that is expanded by the call of its own node is not so again. -/
theorem not_expands_again (reach : Reach surroundings tree (.start tree) conf) {path : KeyPath}
    (expands : conf.Expands path) {later : Conf}
    (goes : TransGen (StepsTo surroundings tree) conf later) :
    ¬later.Expands path := by
  obtain ⟨last, between, goes⟩ := TransGen.tail'_iff.1 goes
  have passed : last.Passed path := by
    clear goes
    induction between with
    | refl => exact expands.passed
    | tail before goes ih => exact ih.change (change_of_step (consistent_of_reach (reach.trans before)).1 goes)
  intro again
  obtain ⟨framed, consistent⟩ := consistent_of_reach (reach.trans between)
  exact consistent.not_passed_of_expands (change_of_step framed goes) again passed

/-- Steps that lead to a last moment cannot go on for ever. -/
theorem acc_of_reach {last : Conf} (reach : Reach surroundings tree conf last)
    (ends : step surroundings tree last = none) :
    Acc (fun next conf => StepsTo surroundings tree conf next) conf := by
  induction reach using ReflTransGen.head_induction_on with
  | refl => exact ⟨_, fun next goes => nomatch ends.symm.trans goes⟩
  | head goes _ ih =>
    refine ⟨_, fun next goes' => ?_⟩
    cases goes.symm.trans goes'
    exact ih

theorem exists_last (surroundings : Surroundings) (distinct : tree.HasDistinctKeys) :
    ∃ last, Reach surroundings tree (.start tree) last ∧ step surroundings tree last = none
      ∧ last.frames = [] ∧ last.marked = ∅ ∧ last.interpolated tree = tree.interpolate surroundings := by
  refine ⟨_, reach_settle (freeUnmarked_start distinct) .root [] .start, ?_⟩
  rw [Tree.interpolate]
  cases settle surroundings tree (tree.addresses []) [] tree .start with
  | ok _ progress => exact ⟨rfl, rfl, rfl, rfl⟩
  | error e progress => exact ⟨rfl, rfl, rfl, rfl⟩

/-- Settling a tree step by step ends, with no node open and with the outcome of interpolation, whatever the references
of the tree lead to. At every moment the open nodes are distinct, they are those that are marked, and none of them is
done. No string is expanded twice by the call of its own node. -/
theorem interpolation_ends (surroundings : Surroundings) (tree : Tree) (distinct : tree.HasDistinctKeys) :
    Acc (fun next conf => StepsTo surroundings tree conf next) (.start tree)
      ∧ (∃ last, Reach surroundings tree (.start tree) last ∧ step surroundings tree last = none
        ∧ last.frames = [] ∧ last.marked = ∅ ∧ last.interpolated tree = tree.interpolate surroundings)
      ∧ ∀ conf, Reach surroundings tree (.start tree) conf →
        conf.Consistent
          ∧ ∀ path, conf.Expands path → ∀ later, TransGen (StepsTo surroundings tree) conf later →
            ¬later.Expands path := by
  obtain ⟨last, reach, ends, outcome⟩ := exists_last surroundings distinct
  refine ⟨acc_of_reach reach ends, ⟨last, reach, ends, outcome⟩, fun conf reach => ?_⟩
  exact ⟨(consistent_of_reach reach).2, fun path expands later goes => not_expands_again reach expands goes⟩

/-- Two strings that lead to one another, the first out of a fallback inside a fallback. -/
def circularTree : Tree :=
  .mapping [
    ("a", .string "$\x7boc.env:X,$\x7boc.env:Y,$\x7bb\x7d\x7d\x7d"),
    ("b", .string "$\x7ba\x7d")]

theorem parse_circular :
    Template.parse "$\x7boc.env:X,$\x7boc.env:Y,$\x7bb\x7d\x7d\x7d".toList
      = [.variable "X".toList [.variable "Y".toList [.reference "b".toList]]] := by
  have first : FirstPlaceholder "$\x7boc.env:X,$\x7boc.env:Y,$\x7bb\x7d\x7d\x7d".toList []
      (Template.variableMark ++ "X,$\x7boc.env:Y,$\x7bb\x7d\x7d".toList) [] := firstPlaceholder_of_split rfl rfl
  have second : FirstPlaceholder "$\x7boc.env:Y,$\x7bb\x7d\x7d".toList []
      (Template.variableMark ++ "Y,$\x7bb\x7d".toList) [] := firstPlaceholder_of_split rfl rfl
  have third : FirstPlaceholder "$\x7bb\x7d".toList [] "b".toList [] := firstPlaceholder_of_split rfl rfl
  have inner : Template.parse (variableFallback "Y,$\x7bb\x7d".toList) = [.reference "b".toList] := by
    show Template.parse "$\x7bb\x7d".toList = _
    rw [Template.parse, pieces_of_first _ third, pieceOf_reference (by decide) (by decide), pieces_of_literal _ rfl]
    rfl
  have outer : Template.parse (variableFallback "X,$\x7boc.env:Y,$\x7bb\x7d\x7d".toList)
      = [.variable "Y".toList [.reference "b".toList]] := by
    show Template.parse "$\x7boc.env:Y,$\x7bb\x7d\x7d".toList = _
    rw [Template.parse, pieces_of_first _ second, pieceOf_variable, inner, pieces_of_literal _ rfl]
    rfl
  rw [Template.parse, pieces_of_first _ first, pieceOf_variable, outer, pieces_of_literal _ rfl]
  rfl

theorem parse_reference_a : Template.parse "$\x7ba\x7d".toList = [.reference "a".toList] := by
  have only : FirstPlaceholder "$\x7ba\x7d".toList [] "a".toList [] := firstPlaceholder_of_split rfl rfl
  rw [Template.parse, pieces_of_first _ only, pieceOf_reference (by decide) (by decide), pieces_of_literal _ rfl]
  rfl

theorem exists_cycle (tree : Tree)
    (a : tree.find ["a"] = some (.string "$\x7boc.env:X,$\x7boc.env:Y,$\x7bb\x7d\x7d\x7d"))
    (b : tree.find ["b"] = some (.string "$\x7ba\x7d")) :
    ∃ progress, settle midnight tree [[], ["a"], ["b"]] [] circularTree .start
      = .error (.interpolationCycle ["a"]) progress := by
  have markers : Template.hasMarker "$\x7boc.env:X,$\x7boc.env:Y,$\x7bb\x7d\x7d\x7d".toList = true
      ∧ Template.hasMarker "$\x7ba\x7d".toList = true := by decide
  have paths : KeyPath.parse "a" = .ok ["a"] ∧ KeyPath.parse "b" = .ok ["b"] := ⟨rfl, rfl⟩
  have unset : midnight.value? "X" = none ∧ midnight.value? "Y" = none := ⟨rfl, rfl⟩
  simp [circularTree, settle, settleEntries, fill, fillPiece, parse_circular, parse_reference_a, markers, paths, a, b,
    unset, Tree.entryAddress, run_bind, run_get, run_throw, run_record, Progress.isDone, Progress.start,
    Settling.ofExcept, -String.reduceToList]

theorem failure_circularTree :
    (circularTree.interpolate midnight).failure = some (.interpolationCycle ["a"]) := by
  have addresses : circularTree.addresses [] = [[], ["a"], ["b"]] := by decide +kernel
  obtain ⟨progress, fails⟩ := exists_cycle circularTree rfl rfl
  rw [Tree.interpolate, addresses, fails]

/-- A cycle that is out of sight of both its strings is come upon and named. -/
theorem interpolation_ends_circularTree :
    circularTree.HasDistinctKeys
      ∧ Acc (fun next conf => StepsTo midnight circularTree conf next) (.start circularTree)
      ∧ ∃ last, Reach midnight circularTree (.start circularTree) last ∧ last.Consistent ∧ last.marked = ∅
        ∧ (last.interpolated circularTree).failure = some (.interpolationCycle ["a"]) := by
  have distinct : circularTree.HasDistinctKeys := by decide
  obtain ⟨acc, last, moments⟩ := interpolation_ends midnight circularTree distinct
  obtain ⟨last, reach, -, -, unmarked, outcome⟩ := last
  exact ⟨distinct, acc, last, reach, (moments last reach).1, unmarked, outcome ▸ failure_circularTree⟩

end LayeredConfig.Interpolation
