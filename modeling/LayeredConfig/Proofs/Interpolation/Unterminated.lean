import LayeredConfig.Proofs.Interpolation.Cutting
import LayeredConfig.Proofs.Interpolation.Ending

/-!
# Which strings are unterminated

A part that is not closed holds the whole text that it was cut from, and the fallback of a variable is closed wherever
its placeholder stands. So every part that a run of settling comes to was cut from a closed text or from a string of the
tree (`Sourced`). Steps keep this of the call at hand and of all frames that wait (`Conf.Sourced`), and the failure that
a run ends with can name a text as unterminated only if that text is a string of the tree (`leaf_of_unterminated`).

`template_cut` says of every text how it is read as a template: the cut, the marker that nothing closes, the fallbacks
at every depth, and the string that is blamed.
-/

namespace LayeredConfig.Interpolation

open Relation Template

variable {surroundings : Surroundings} {tree : Tree} {conf next : Conf}

/-! ## Errors of other kinds -/

theorem ne_unterminated_of_componentsFrom {expression : String} {current rest : List Char} {error : Error}
    (fails : KeyPath.componentsFrom expression current rest = .error error) (text : String) (path : KeyPath) :
    error ≠ .unterminatedPlaceholder text path := by
  fun_induction KeyPath.componentsFrom expression current rest with
  | case1 | case3 | case5 =>
    cases fails
    intro same
    cases same
  | case2 => cases fails
  | case4 _ _ _ ih => exact ih fails
  | case6 _ rest _ ih =>
    cases below : KeyPath.componentsFrom expression [] rest with
    | ok components =>
      rw [below] at fails
      cases fails
    | error error' =>
      rw [below] at fails
      cases fails
      exact ih below
  | case7 _ _ _ _ _ _ ih => exact ih fails

theorem ne_unterminated_of_parse {expression : String} {error : Error}
    (fails : KeyPath.parse expression = .error error) (text : String) (path : KeyPath) :
    error ≠ .unterminatedPlaceholder text path := by
  rw [KeyPath.parse] at fails
  split at fails
  · cases fails
    intro same
    cases same
  · cases read : KeyPath.componentsFrom expression [] expression.toList with
    | ok components =>
      rw [read] at fails
      cases fails
    | error error' =>
      rw [read] at fails
      cases fails
      exact ne_unterminated_of_componentsFrom read text path

theorem ne_unterminated_of_plainText {node : Tree} {error : Error} (fails : node.plainText = .error error)
    (text : String) (path : KeyPath) : error ≠ .unterminatedPlaceholder text path := by
  cases node with
  | null | bool | int | double | string => cases fails
  | sequence | mapping =>
    cases fails
    exact nofun

/-! ## Where the parts of a template come from -/

/-- A part that is filled in for a path was cut from a closed text, or from the string that stands there. -/
def Sourced (tree : Tree) (path : KeyPath) (piece : Piece) : Prop :=
  ∃ text, piece ∈ parse text ∧ (Closed text ∨ tree.NodeAt path (.string (String.ofList text)))

/-- An unclosed part was cut from a string of the tree. -/
theorem Sourced.leaf {path : KeyPath} {text : List Char} (sourced : Sourced tree path (.unclosed text)) :
    tree.NodeAt path (.string (String.ofList text)) ∧ ¬Closed text := by
  obtain ⟨whole, member, closed | stands⟩ := sourced
  · exact absurd closed (unclosed_mem_parse.1 member).2
  · obtain ⟨rfl, open'⟩ := unclosed_mem_parse.1 member
    exact ⟨stands, open'⟩

/-- The parts of a fallback were cut from a closed text, whatever the variable was cut from. -/
theorem Sourced.fallback {path : KeyPath} {name : List Char} {fallback : Template}
    (sourced : Sourced tree path (.variable name fallback)) : ∀ piece ∈ fallback, Sourced tree path piece := by
  obtain ⟨_, member, -⟩ := sourced
  obtain ⟨inner, rfl, closed⟩ := closed_of_variable_mem_parse member
  exact fun piece member => ⟨inner, member, .inl closed⟩

/-- What is called stands in the tree, and the parts of a template have a source. -/
def Call.Sourced (tree : Tree) : Call → Prop
  | .node path called => tree.NodeAt path called
  | .items path position rest => Tree.AllItems tree.NodeAt path position rest
  | .entries path rest => Tree.AllEntries tree.NodeAt path rest
  | .template path rest => ∀ part ∈ rest, Interpolation.Sourced tree path part
  | .piece path part => Interpolation.Sourced tree path part

/-- What a frame will call is sourced. -/
def Frame.Sourced (tree : Tree) : Frame → Prop
  | .items path position rest => (Call.items path position rest).Sourced tree
  | .entries path rest => (Call.entries path rest).Sourced tree
  | .template path rest => (Call.template path rest).Sourced tree
  | .opened _ | .join _ | .reference _ _ => True

/-- What is called is sourced, and a text that is blamed for a placeholder is a string of the tree. -/
def Task.Sourced (tree : Tree) : Task → Prop
  | .call called => called.Sourced tree
  | .returns _ => True
  | .fails e => ∀ text path, e = .unterminatedPlaceholder text path →
    tree.NodeAt path (.string text) ∧ ¬Closed text.toList

/-- The task at hand and all that waits are sourced. -/
structure Conf.Sourced (tree : Tree) (conf : Conf) : Prop where
  task : conf.task.Sourced tree
  frames : ∀ frame ∈ conf.frames, frame.Sourced tree

/-! ## Steps keep the sources -/

theorem sourced_openTask {path : KeyPath} {node : Tree} (stands : tree.NodeAt path node) :
    (openTask path node).Sourced tree := by
  cases node with
  | mapping entries => exact stands.entries
  | sequence items => exact stands.items
  | string text =>
    rw [openTask]
    split
    · exact fun piece member => ⟨text.toList, member, .inr (by rwa [String.ofList_toList])⟩
    · trivial
  | null | bool | int | double => trivial

theorem sourced_enter_piece {path : KeyPath} {piece : Piece} (sourced : Interpolation.Sourced tree path piece)
    (frames : ∀ frame ∈ conf.frames, frame.Sourced tree) :
    (conf.enter surroundings tree (.piece path piece)).Sourced tree := by
  cases piece with
  | literal | now => exact ⟨trivial, frames⟩
  | «variable» name fallback =>
    rw [Conf.enter]
    split
    · exact ⟨trivial, frames⟩
    · split
      · exact ⟨trivial, frames⟩
      · exact ⟨sourced.fallback, frames⟩
  | reference expression =>
    rw [Conf.enter]
    split
    · rename_i e fails
      exact ⟨fun text path same => absurd same (ne_unterminated_of_parse fails text path), frames⟩
    · split
      · refine ⟨fun text path same => ?_, frames⟩
        cases same
      · rename_i target _ node found
        exact ⟨Tree.nodeAt_of_find found, List.forall_mem_cons.2 ⟨trivial, frames⟩⟩
  | unclosed text =>
    refine ⟨fun other path' same => ?_, frames⟩
    cases same
    rw [String.toList_ofList]
    exact sourced.leaf

theorem sourced_enter {call : Call} (sourced : call.Sourced tree)
    (frames : ∀ frame ∈ conf.frames, frame.Sourced tree) : (conf.enter surroundings tree call).Sourced tree := by
  cases call with
  | node path node =>
    rw [Conf.enter]
    split
    · exact ⟨trivial, frames⟩
    · split
      · refine ⟨fun text path same => ?_, frames⟩
        cases same
      · exact ⟨sourced_openTask sourced, List.forall_mem_cons.2 ⟨trivial, frames⟩⟩
  | items path position items =>
    cases items with
    | nil => exact ⟨trivial, frames⟩
    | cons item rest => exact ⟨sourced.1, List.forall_mem_cons.2 ⟨sourced.2, frames⟩⟩
  | entries path entries =>
    cases entries with
    | nil => exact ⟨trivial, frames⟩
    | cons entry rest => exact ⟨sourced.1, List.forall_mem_cons.2 ⟨sourced.2, frames⟩⟩
  | template path pieces =>
    cases pieces with
    | nil => exact ⟨trivial, frames⟩
    | cons piece rest =>
      obtain ⟨first, later⟩ := List.forall_mem_cons.1 sourced
      exact ⟨first, List.forall_mem_cons.2 ⟨later, frames⟩⟩
  | piece path piece => exact sourced_enter_piece sourced frames

theorem sourced_resume {frame : Frame} (sourced : frame.Sourced tree)
    (frames : ∀ frame ∈ conf.frames, frame.Sourced tree) (text : Option (List Char)) :
    (conf.resume text frame).Sourced tree := by
  cases frame with
  | opened | join => exact ⟨trivial, frames⟩
  | items | entries => exact ⟨sourced, frames⟩
  | template => exact ⟨sourced, List.forall_mem_cons.2 ⟨trivial, frames⟩⟩
  | reference target node =>
    rw [Conf.resume]
    split
    · exact ⟨trivial, frames⟩
    · rename_i e fails
      exact ⟨fun text path same => absurd same (ne_unterminated_of_plainText fails text path), frames⟩

theorem Conf.Sourced.step (sourced : conf.Sourced tree) (goes : StepsTo surroundings tree conf next) :
    next.Sourced tree := by
  obtain ⟨task, frames, marked, progress⟩ := conf
  obtain ⟨task_sourced, frames_sourced⟩ := sourced
  cases task with
  | call call =>
    cases goes
    exact sourced_enter task_sourced frames_sourced
  | returns text =>
    cases frames with
    | nil => cases goes
    | cons frame frames =>
      cases goes
      obtain ⟨first, later⟩ := List.forall_mem_cons.1 frames_sourced
      exact sourced_resume first later text
  | fails e =>
    cases frames with
    | nil => cases goes
    | cons frame frames =>
      cases goes
      exact ⟨task_sourced, (List.forall_mem_cons.1 frames_sourced).2⟩

theorem sourced_of_reach (reach : Reach surroundings tree (.start tree) conf) : conf.Sourced tree := by
  induction reach with
  | refl => exact ⟨.root, nofun⟩
  | tail _ goes ih => exact ih.step goes

/-! ## The string that is blamed -/

/-- A text that is blamed for a placeholder that is not closed is a string of the tree, the one at the path that is
named, and it is not closed itself. -/
theorem leaf_of_unterminated (distinct : tree.HasDistinctKeys) {text : String} {path : KeyPath}
    (failed : (tree.interpolate surroundings).failure = some (.unterminatedPlaceholder text path)) :
    tree.NodeAt path (.string text) ∧ ¬Closed text.toList := by
  obtain ⟨last, reach, -, -, -, outcome⟩ := exists_last surroundings distinct
  obtain ⟨task, -⟩ := sourced_of_reach reach
  rw [← outcome, Conf.interpolated] at failed
  cases fails : last.task with
  | call | returns =>
    rw [fails] at failed
    cases failed
  | fails e =>
    rw [fails] at failed task
    exact task text path (Option.some.inj failed)

/-- A text is cut in exactly one way into literals without a marker and balanced bodies, which are what its parts are
made of, or it is cut up to a marker that nothing closes, and then the last part says so. The latter is so when it
cannot be cut. The fallback of every variable, and those in fallbacks at any depth, can be cut. A failure that blames
the text for a placeholder that is not closed names a path where the text stands as a string of the tree. -/
theorem template_cut (text : List Char) :
    ((∃ cut : Cut, cut.IsSound ∧ cut.text = text ∧ parse text = cut.template
        ∧ ∀ other : Cut, other.IsSound → other.text = text → other = cut)
      ∨ ∃ (cut : Cut) (inner : List Char), cut.IsSound ∧ text = cut.text ++ (marker ++ inner) ∧ Unclosed inner
        ∧ parse text = cut.template ++ [.unclosed text])
    ∧ ((∃ whole, .unclosed whole ∈ parse text) ↔ ¬∃ cut : Cut, cut.IsSound ∧ cut.text = text)
    ∧ (∀ inner, TransGen Fallback text inner →
      ∃ cut : Cut, cut.IsSound ∧ cut.text = inner ∧ parse inner = cut.template
        ∧ ∀ whole, .unclosed whole ∉ parse inner)
    ∧ ∀ (surroundings : Surroundings) (tree : Tree) (path : KeyPath), tree.HasDistinctKeys →
      (tree.interpolate surroundings).failure = some (.unterminatedPlaceholder (String.ofList text) path) →
        tree.NodeAt path (.string (String.ofList text)) ∧ ¬∃ cut : Cut, cut.IsSound ∧ cut.text = text := by
  refine ⟨?_, ?_, fun inner reaches => ?_, fun surroundings tree path distinct failed => ?_⟩
  · rcases pieces_cases_cut text text with ⟨cut, sound, same, parts⟩
      | ⟨cut, inner, sound, same, unclosed, parts, -⟩
    · exact .inl ⟨cut, sound, same, parts, fun other sound' same' => sound'.unique sound (same'.trans same.symm)⟩
    · exact .inr ⟨cut, inner, sound, same, unclosed, parts⟩
  · rw [← closed_iff_exists_cut]
    constructor
    · rintro ⟨_, member⟩
      exact (unclosed_mem_parse.1 member).2
    · exact fun open' => ⟨text, unclosed_mem_parse.2 ⟨rfl, open'⟩⟩
  · obtain ⟨_, -, last⟩ := TransGen.tail'_iff.1 reaches
    obtain ⟨cut, sound, rfl⟩ := closed_iff_exists_cut.1 last.closed
    exact ⟨cut, sound, rfl, cut.pieces_text sound _, fun _ member => (unclosed_mem_parse.1 member).2 last.closed⟩
  · obtain ⟨stands, open'⟩ := leaf_of_unterminated distinct failed
    rw [String.toList_ofList, closed_iff_exists_cut] at open'
    exact ⟨stands, open'⟩

/-- A fallback inside a fallback, and behind them a marker that nothing closes. -/
def openText : List Char := "$\x7boc.env:X,$\x7boc.env:Y,c\x7d\x7d$\x7bd".toList

/-- The tree with that text. -/
def openTree : Tree := .mapping [("a", .string (String.ofList openText))]

theorem first_openText :
    FirstPlaceholder openText [] (variableMark ++ "X,$\x7boc.env:Y,c\x7d".toList) (marker ++ "d".toList) :=
  firstPlaceholder_of_split rfl rfl

theorem first_fallback_openText :
    FirstPlaceholder (variableFallback "X,$\x7boc.env:Y,c\x7d".toList) [] (variableMark ++ "Y,c".toList) [] :=
  firstPlaceholder_of_split rfl rfl

theorem parse_openText : parse openText
    = [.variable "X".toList [.variable "Y".toList [.literal "c".toList]], .unclosed openText] := by
  have inner : parse (variableFallback "Y,c".toList) = [.literal "c".toList] := pieces_of_literal _ rfl
  have outer : parse (variableFallback "X,$\x7boc.env:Y,c\x7d".toList)
      = [.variable "Y".toList [.literal "c".toList]] := by
    rw [parse, pieces_of_first _ first_fallback_openText, pieceOf_variable, inner, pieces_of_literal _ rfl]
    rfl
  have rest : pieces openText (marker ++ "d".toList) = [.unclosed openText] := by
    rw [pieces]
    rfl
  rw [parse, pieces_of_first _ first_openText, pieceOf_variable, outer, rest]
  rfl

theorem failure_openTree :
    (openTree.interpolate midnight).failure = some (.unterminatedPlaceholder (String.ofList openText) ["a"]) := by
  have addresses : openTree.addresses [] = [[], ["a"]] := by decide +kernel
  have markers : hasMarker openText = true := rfl
  have unset : midnight.value? "X" = none ∧ midnight.value? "Y" = none := ⟨rfl, rfl⟩
  have fails : ∃ progress, settle midnight openTree [[], ["a"]] [] openTree .start
      = .error (.unterminatedPlaceholder (String.ofList openText) ["a"]) progress := by
    simp [openTree, settle, settleEntries, fill, fillPiece, parse_openText, markers, unset, Tree.entryAddress, run_bind,
      run_get, run_throw, run_record, Progress.isDone, Progress.start, -String.reduceToList]
  obtain ⟨progress, fails⟩ := fails
  rw [Tree.interpolate, addresses, fails]

/-- The inner fallback can be cut, and what is blamed is the whole text. -/
theorem template_cut_openText :
    TransGen Fallback openText (variableFallback "Y,c".toList)
      ∧ (∃ cut : Cut, cut.IsSound ∧ cut.text = variableFallback "Y,c".toList)
      ∧ openTree.HasDistinctKeys
      ∧ (openTree.interpolate midnight).failure = some (.unterminatedPlaceholder (String.ofList openText) ["a"])
      ∧ openTree.NodeAt ["a"] (.string (String.ofList openText))
      ∧ ¬∃ cut : Cut, cut.IsSound ∧ cut.text = openText := by
  have nested : TransGen Fallback openText (variableFallback "Y,c".toList) :=
    .tail (.single first_openText.fallback) first_fallback_openText.fallback
  have distinct : openTree.HasDistinctKeys := by decide
  obtain ⟨-, -, fallbacks, blamed⟩ := template_cut openText
  obtain ⟨cut, sound, same, -⟩ := fallbacks _ nested
  obtain ⟨stands, open'⟩ := blamed midnight openTree ["a"] distinct failure_openTree
  exact ⟨nested, ⟨cut, sound, same⟩, distinct, failure_openTree, stands, open'⟩

end LayeredConfig.Interpolation
