import LayeredConfig.Proofs.Interpolation.Settling
import Mathlib.Data.Finset.Basic

/-!
# Settling step by step

`settle` gives the outcome of a whole run and can name no moment on the way. Here a configuration `Conf` is such a
moment: the task at hand, the frames that wait for it, innermost first, the nodes that are marked as open, and what is
done. `step` goes on by one step. A call of a node checks both markers and then opens the node, an open node is unmarked
when its frame is left, and a failure leaves one frame after the other.

Steps know nothing of the list of free nodes that makes `settle` end. `reach_settle` says that they come to the outcome
of `settle` nevertheless, below any frames, when the free nodes are those that are not marked.
-/

namespace LayeredConfig.Interpolation

open Relation

/-- A call: of a node, of the items or entries from one on, or of a template or a part of one that stands at a path. -/
inductive Call where
  | node (path : KeyPath) (node : Tree)
  | items (path : KeyPath) (position : Nat) (items : List Tree)
  | entries (path : KeyPath) (entries : List (String × Tree))
  | template (path : KeyPath) (pieces : Template)
  | piece (path : KeyPath) (piece : Piece)

/-- What waits for a call to return. -/
inductive Frame where
  /-- A node that is open. -/
  | opened (path : KeyPath)
  /-- The items after the one called. -/
  | items (path : KeyPath) (position : Nat) (rest : List Tree)
  /-- The entries after the one called. -/
  | entries (path : KeyPath) (rest : List (String × Tree))
  /-- The parts after the one called. -/
  | template (path : KeyPath) (rest : Template)
  /-- The text of the parts before those called. -/
  | join (before : List Char)
  /-- A reference, which takes the text of its target when that is settled. -/
  | reference (target : KeyPath) (node : Tree)

/-- The node that is open as long as a frame waits. -/
def Frame.path? : Frame → Option KeyPath
  | .opened path => some path
  | _ => none

/-- The marks that are left when a frame is left. -/
def Frame.unmark (marked : Finset KeyPath) : Frame → Finset KeyPath
  | .opened path => marked.erase path
  | _ => marked

/-- What is to be done next: to make a call, to return, with a text from a template, or to fail. -/
inductive Task where
  | call (call : Call)
  | returns (text : Option (List Char))
  | fails (error : Error)

/-- A moment of settling. -/
structure Conf where
  task : Task
  frames : List Frame
  marked : Finset KeyPath
  progress : Progress

/-- What an open node begins with. -/
def openTask (path : KeyPath) : Tree → Task
  | .mapping entries => .call (.entries path entries)
  | .sequence items => .call (.items path 0 items)
  | .string text =>
    if Template.hasMarker text.toList then .call (.template path (Template.parse text.toList))
    else .returns none
  | _ => .returns none

namespace Conf

/-- Nothing has been called but the root. -/
def start (tree : Tree) : Conf :=
  ⟨.call (.node [] tree), [], ∅, .start⟩

/-- The nodes that are open, innermost first. -/
def openPaths (conf : Conf) : List KeyPath :=
  conf.frames.filterMap Frame.path?

/-- Makes a call. -/
def enter (surroundings : Surroundings) (tree : Tree) (conf : Conf) : Call → Conf
  | .node path node =>
    if conf.progress.isDone path then { conf with task := .returns none }
    else if path ∈ conf.marked then { conf with task := .fails (.interpolationCycle path) }
    else ⟨openTask path node, .opened path :: conf.frames, insert path conf.marked, conf.progress⟩
  | .items _ _ [] => { conf with task := .returns none }
  | .items path position (item :: rest) =>
    { conf with
      task := .call (.node (Tree.itemAddress path position) item)
      frames := .items path (position + 1) rest :: conf.frames }
  | .entries _ [] => { conf with task := .returns none }
  | .entries path ((key, value) :: rest) =>
    { conf with
      task := .call (.node (Tree.entryAddress path key) value)
      frames := .entries path rest :: conf.frames }
  | .template _ [] => { conf with task := .returns (some []) }
  | .template path (piece :: rest) =>
    { conf with task := .call (.piece path piece), frames := .template path rest :: conf.frames }
  | .piece _ (.literal text) => { conf with task := .returns (some text) }
  | .piece _ (.now pattern) => { conf with task := .returns (some (surroundings.now.write pattern)) }
  | .piece path (.variable name fallback) =>
    match surroundings.value? (String.ofList name) with
    | some value => { conf with task := .returns (some value.toList) }
    | none =>
      if fallback.isEmpty then { conf with task := .returns (some []) }
      else
        { conf with
          task := .call (.template path fallback)
          progress := ⟨conf.progress.done, conf.progress.log ++ [fallbackRecord name path]⟩ }
  | .piece path (.reference expression) =>
    match KeyPath.parse (String.ofList expression) with
    | .error e => { conf with task := .fails e }
    | .ok target =>
      match tree.find target with
      | none => { conf with task := .fails (.referenceAbsent (String.ofList expression) path) }
      | some node =>
        { conf with task := .call (.node target node), frames := .reference target node :: conf.frames }
  | .piece path (.unclosed text) =>
    { conf with task := .fails (.unterminatedPlaceholder (String.ofList text) path) }

/-- Returns to a frame, which is the first one no more. -/
def resume (conf : Conf) (text : Option (List Char)) : Frame → Conf
  | .opened path =>
    { conf with
      task := .returns none
      marked := conf.marked.erase path
      progress := ⟨(path, text.map String.ofList) :: conf.progress.done, conf.progress.log⟩ }
  | .items path position rest => { conf with task := .call (.items path position rest) }
  | .entries path rest => { conf with task := .call (.entries path rest) }
  | .template path rest =>
    { conf with task := .call (.template path rest), frames := .join (text.getD []) :: conf.frames }
  | .join before => { conf with task := .returns (some (before ++ text.getD [])) }
  | .reference target node =>
    match (conf.progress.current target node).plainText with
    | .ok text => { conf with task := .returns (some text) }
    | .error e => { conf with task := .fails e }

end Conf

/-- Goes on by a step, unless the root has returned or failed. -/
def step (surroundings : Surroundings) (tree : Tree) (conf : Conf) : Option Conf :=
  match conf.task, conf.frames with
  | .call call, _ => some (conf.enter surroundings tree call)
  | .returns text, frame :: frames => some (Conf.resume { conf with frames := frames } text frame)
  | .fails e, frame :: frames => some ⟨.fails e, frames, frame.unmark conf.marked, conf.progress⟩
  | .returns _, [] => none
  | .fails _, [] => none

/-- One step leads from a configuration to another. -/
abbrev StepsTo (surroundings : Surroundings) (tree : Tree) (conf next : Conf) : Prop :=
  step surroundings tree conf = some next

/-- Some number of steps. -/
abbrev Reach (surroundings : Surroundings) (tree : Tree) : Conf → Conf → Prop :=
  ReflTransGen (StepsTo surroundings tree)

/-- The moment when a call has ended, with the frames and the marks that it was made under. -/
def ended {α : Type} (frames : List Frame) (marked : Finset KeyPath) (text : α → Option (List Char)) :
    EStateM.Result Error Progress α → Conf
  | .ok a progress => ⟨.returns (text a), frames, marked, progress⟩
  | .error e progress => ⟨.fails e, frames, marked, progress⟩

/-- The nodes of a tree that are free are those that are not marked. -/
structure FreeUnmarked (tree : Tree) (free : List KeyPath) (marked : Finset KeyPath) : Prop where
  nodup : free.Nodup
  free_iff : ∀ path node, tree.NodeAt path node → (path ∈ free ↔ path ∉ marked)

variable {surroundings : Surroundings} {tree : Tree}

theorem FreeUnmarked.open {free : List KeyPath} {marked : Finset KeyPath} (apart : FreeUnmarked tree free marked)
    (path : KeyPath) : FreeUnmarked tree (free.erase path) (insert path marked) := by
  refine ⟨apart.nodup.erase path, fun other node stands => ?_⟩
  rw [apart.nodup.mem_erase_iff, Finset.mem_insert, apart.free_iff other node stands, not_or]

theorem freeUnmarked_start (distinct : tree.HasDistinctKeys) : FreeUnmarked tree (tree.addresses []) ∅ :=
  ⟨Tree.nodup_addresses tree distinct, fun _ _ stands => iff_of_true stands.mem_addresses (Finset.notMem_empty _)⟩

/-- An action runs under a frame. When it has returned, what follows it runs; when it has failed, the frame is left. -/
theorem reach_bind {α β : Type} (frame : Frame) {conf : Conf} {frames : List Frame} {marked marked' : Finset KeyPath}
    {progress : Progress} {text : α → Option (List Char)} {text' : β → Option (List Char)}
    {action : Settling α} {next : α → Settling β} (leaves : frame.unmark marked' = marked)
    (first : Reach surroundings tree conf (ended (frame :: frames) marked' text (action progress)))
    (later : ∀ a after, Reach surroundings tree ⟨.returns (text a), frame :: frames, marked', after⟩
      (ended frames marked text' (next a after))) :
    Reach surroundings tree conf (ended frames marked text' ((action >>= next) progress)) := by
  rw [run_bind]
  cases run : action progress with
  | ok a after =>
    rw [run] at first
    exact first.trans (later a after)
  | error e after =>
    rw [run] at first
    refine first.tail ?_
    rw [← leaves]
    rfl

/-! ## Steps come to the outcome of settling -/

mutual

/-- The call of a node comes to the outcome of `settle`, below any frames. -/
theorem reach_settle {free : List KeyPath} {marked : Finset KeyPath} (apart : FreeUnmarked tree free marked)
    {path : KeyPath} {node : Tree} (stands : tree.NodeAt path node) (frames : List Frame) (progress : Progress) :
    Reach surroundings tree ⟨.call (.node path node), frames, marked, progress⟩
      (ended frames marked (fun _ => none) (settle surroundings tree free path node progress)) := by
  refine .head rfl ?_
  rw [settle.eq_def, run_bind, run_get, Conf.enter]
  by_cases done : progress.isDone path = true
  · simp only [if_pos done]
    exact .refl
  simp only [if_neg done]
  have same := apart.free_iff path node stands
  by_cases free_path : path ∈ free
  · have shorter := length_erase_lt free_path
    have unmarked : path ∉ marked := same.1 free_path
    have apart' := apart.open path
    have leaves : (Frame.opened path).unmark (insert path marked) = marked := Finset.erase_insert unmarked
    -- Whatever the node begins with, what it returns finishes it.
    have finish (text : Option (List Char)) (after : Progress) :
        Reach surroundings tree ⟨.returns text, .opened path :: frames, insert path marked, after⟩
          (ended frames marked (fun _ => none) (Settling.finish path (text.map String.ofList) after)) := by
      refine .single ?_
      show some (Conf.mk _ frames ((Frame.opened path).unmark _) _) = _
      rw [leaves]
      rfl
    simp only [if_neg unmarked, dif_pos free_path]
    cases node with
    | mapping entries =>
      exact reach_bind (.opened path) leaves (reach_settleEntries apart' entries stands.entries _ progress)
        fun _ => finish none
    | sequence items =>
      exact reach_bind (.opened path) leaves (reach_settleItems apart' items 0 stands.items _ progress)
        fun _ => finish none
    | string text =>
      cases marker : Template.hasMarker text.toList with
      | true =>
        simp only [openTask, marker, if_true]
        exact reach_bind (.opened path) leaves (reach_fill apart' path (Template.parse text.toList) _ progress)
          fun filled => finish (some filled)
      | false =>
        simp only [openTask, marker, Bool.false_eq_true, if_false]
        exact finish none progress
    | null | bool | int | double => exact finish none progress
  · simp only [if_pos (not_not.1 (mt same.2 free_path)), dif_neg free_path]
    exact .refl
termination_by (free.length, 0, 0)

theorem reach_settleItems {free : List KeyPath} {marked : Finset KeyPath} (apart : FreeUnmarked tree free marked)
    {path : KeyPath} (items : List Tree) (position : Nat) (stand : Tree.AllItems tree.NodeAt path position items)
    (frames : List Frame) (progress : Progress) :
    Reach surroundings tree ⟨.call (.items path position items), frames, marked, progress⟩
      (ended frames marked (fun _ => none) (settleItems surroundings tree free path position items progress)) := by
  refine .head rfl ?_
  cases items with
  | nil =>
    rw [settleItems]
    exact .refl
  | cons item rest =>
    rw [settleItems]
    refine reach_bind (.items path (position + 1) rest) rfl (reach_settle apart stand.1 _ progress) fun _ after => ?_
    exact .head rfl (reach_settleItems apart rest (position + 1) stand.2 frames after)
termination_by (free.length, 1, sizeOf items)

theorem reach_settleEntries {free : List KeyPath} {marked : Finset KeyPath} (apart : FreeUnmarked tree free marked)
    {path : KeyPath} (entries : List (String × Tree)) (stand : Tree.AllEntries tree.NodeAt path entries)
    (frames : List Frame) (progress : Progress) :
    Reach surroundings tree ⟨.call (.entries path entries), frames, marked, progress⟩
      (ended frames marked (fun _ => none) (settleEntries surroundings tree free path entries progress)) := by
  refine .head rfl ?_
  cases entries with
  | nil =>
    rw [settleEntries]
    exact .refl
  | cons entry rest =>
    obtain ⟨key, value⟩ := entry
    rw [settleEntries]
    refine reach_bind (.entries path rest) rfl (reach_settle apart stand.1 _ progress) fun _ after => ?_
    exact .head rfl (reach_settleEntries apart rest stand.2 frames after)
termination_by (free.length, 1, sizeOf entries)

theorem reach_fill {free : List KeyPath} {marked : Finset KeyPath} (apart : FreeUnmarked tree free marked)
    (path : KeyPath) (template : Template) (frames : List Frame) (progress : Progress) :
    Reach surroundings tree ⟨.call (.template path template), frames, marked, progress⟩
      (ended frames marked some (fill surroundings tree free path template progress)) := by
  refine .head rfl ?_
  cases template with
  | nil =>
    rw [fill]
    exact .refl
  | cons piece rest =>
    rw [fill]
    refine reach_bind (.template path rest) rfl (reach_fillPiece apart path piece _ progress) fun text after => ?_
    refine .head rfl (reach_bind (.join text) rfl (reach_fill apart path rest _ after) fun more _ => ?_)
    exact .single rfl
termination_by (free.length, 1, sizeOf template)

theorem reach_fillPiece {free : List KeyPath} {marked : Finset KeyPath} (apart : FreeUnmarked tree free marked)
    (path : KeyPath) (piece : Piece) (frames : List Frame) (progress : Progress) :
    Reach surroundings tree ⟨.call (.piece path piece), frames, marked, progress⟩
      (ended frames marked some (fillPiece surroundings tree free path piece progress)) := by
  refine .head rfl ?_
  cases piece with
  | literal | now =>
    rw [fillPiece]
    exact .refl
  | «variable» name fallback =>
    rw [fillPiece, Conf.enter]
    cases surroundings.value? (String.ofList name) with
    | some value => exact .refl
    | none =>
      by_cases empty : fallback.isEmpty = true
      · simp only [if_pos empty]
        exact .refl
      · simp only [if_neg empty]
        exact reach_fill apart path fallback frames _
  | reference expression =>
    rw [fillPiece, Conf.enter]
    cases KeyPath.parse (String.ofList expression) with
    | error e => exact .refl
    | ok target =>
      simp only [Settling.ofExcept, run_bind, run_pure]
      cases found : tree.find target with
      | none => exact .refl
      | some node =>
        have run := reach_settle apart (Tree.nodeAt_of_find found) (.reference target node :: frames) progress
        refine reach_bind (.reference target node) rfl run fun _ after => .single ?_
        show some (Conf.resume _ _ (.reference target node)) = _
        cases plain : (after.current target node).plainText with
        | ok text =>
          simp only [Conf.resume, plain, run_bind, run_get]
          rfl
        | error e =>
          simp only [Conf.resume, plain, run_bind, run_get]
          rfl
  | unclosed text =>
    rw [fillPiece]
    exact .refl
termination_by (free.length, 1, sizeOf piece)

end

end LayeredConfig.Interpolation
