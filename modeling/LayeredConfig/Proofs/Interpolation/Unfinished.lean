import LayeredConfig.Proofs.Interpolation.Success

/-!
# Interpolation that fails

Where interpolation fails, every string has its old text or the whole text that it expands to, and nothing else has
changed: `interpolate_unfinished`. The strings that have changed are among the nodes that were done, which are closed under
what they wait for, so the references of a string that was filled in lead to nodes that are final. A string that was being
filled in when the failure came is not done, however many others wait for it.
-/

namespace LayeredConfig.Interpolation

variable {surroundings : Surroundings} {tree : Tree}

/-- What interpolation leaves of a tree when it is through with the nodes at some addresses. -/
structure Unfinished (surroundings : Surroundings) (tree after : Tree) (finished : List KeyPath) : Prop where
  closed : ∀ path target, path ∈ finished → Depends surroundings tree path target → target ∈ finished
  filled : ∀ path text, tree.NodeAt path (.string text) → path ∈ finished →
    ∃ final, after.NodeAt path (.string final) ∧ Expands surroundings (Reads after) text.toList final.toList
  kept : ∀ path text, tree.NodeAt path (.string text) → path ∉ finished → after.NodeAt path (.string text)
  remains : ∃ path text, tree.NodeAt path (.string text) ∧ path ∉ finished

theorem getD_text?_of_not_done {progress : Progress} {path : KeyPath} (undone : path ∉ progress.done.map Prod.fst)
    (text : String) : (progress.text? path).getD text = text := by
  have absent : progress.done.lookup path = none :=
    Option.not_isSome_iff_eq_none.1 fun known => undone (isDone_iff.1 known)
  rw [Progress.text?, absent]
  rfl

/-- A run that fails has left a string undone: if all were done, each after what it waits for, there would be no fault. -/
theorem Fault.exists_not_done (distinct : tree.HasDistinctKeys) {error : Error} (fault : Fault surroundings tree error)
    {done : List (KeyPath × Option String)} (supported : Supported surroundings tree done) :
    ∃ path text, tree.NodeAt path (.string text) ∧ path ∉ done.map Prod.fst := by
  refine Classical.byContradiction fun none =>
    fault.not_resolvable distinct (supported.resolvable distinct fun path text leaf => ?_)
  exact Classical.byContradiction fun undone => none ⟨path, text, leaf, undone⟩

/-- Interpolation that fails changes nothing but strings, and gives each of them that it changes the text that the original
expands to in the tree that it leaves. The strings it is through with, among them all that have changed, only refer to nodes
that it is through with too, and it is not through with all of them. -/
theorem interpolate_unfinished (surroundings : Surroundings) (tree : Tree) (distinct : tree.HasDistinctKeys) {error : Error}
    (fails : (tree.interpolate surroundings).failure = some error) :
    tree.Refilled
        (fun text final => final = text
          ∨ Expands surroundings (Reads (tree.interpolate surroundings).tree) text.toList final.toList)
        (tree.interpolate surroundings).tree
      ∧ ∃ finished, Unfinished surroundings tree (tree.interpolate surroundings).tree finished := by
  obtain ⟨progress, final, supported, ⟨succeeds, -⟩ | ⟨error', -, fault⟩⟩ := exists_progress surroundings distinct
  · cases succeeds.symm.trans fails
  rw [final]
  refine ⟨Tree.refilled_mapStrings (fun path text leaf => ?_) tree .root, progress.done.map Prod.fst,
    fun path target => supported.mem_of_depends, fun path text leaf done => ?_, fun path text leaf undone => ?_,
    fault.exists_not_done distinct supported⟩
  · by_cases done : path ∈ progress.done.map Prod.fst
    · exact .inr (expands_of_done distinct supported leaf done)
    · exact .inl (getD_text?_of_not_done done text)
  · exact ⟨_, leaf.mapStrings _, expands_of_done distinct supported leaf done⟩
  · have stays := leaf.mapStrings fun path text => (progress.text? path).getD text
    rwa [Tree.mapStrings, getD_text?_of_not_done undone] at stays

/-- An item that leads to a string that stands later, and then to nothing. -/
def strandedTree : Tree :=
  .mapping [
    ("dirs", .sequence [.string "$\x7bbase\x7d/$\x7bmissing\x7d"]),
    ("base", .string "$\x7boc.env:BASE,$\x7bname\x7d\x7d"),
    ("name", .string "run")]

theorem parse_stranded :
    Template.parse "$\x7bbase\x7d/$\x7bmissing\x7d".toList
      = [.reference "base".toList, .literal "/".toList, .reference "missing".toList] := by
  have first : FirstPlaceholder "$\x7bbase\x7d/$\x7bmissing\x7d".toList [] "base".toList "/$\x7bmissing\x7d".toList :=
    firstPlaceholder_of_split rfl rfl
  have second : FirstPlaceholder "/$\x7bmissing\x7d".toList "/".toList "missing".toList [] :=
    firstPlaceholder_of_split rfl rfl
  rw [Template.parse, pieces_of_first _ first, pieceOf_reference (by decide) (by decide), pieces_of_first _ second,
    pieceOf_reference (by decide) (by decide), pieces_of_literal _ rfl]
  rfl

theorem exists_log (tree : Tree) (base : tree.find ["base"] = some (.string "$\x7boc.env:BASE,$\x7bname\x7d\x7d"))
    (name : tree.find ["name"] = some (.string "run")) (missing : tree.find ["missing"] = none) :
    ∃ log, settle midnight tree [[], ["dirs"], ["dirs", "0"], ["base"], ["name"]] [] strandedTree .start
      = .error (.referenceAbsent "missing" ["dirs", "0"]) ⟨[(["base"], some "run"), (["name"], none)], log⟩ := by
  have markers : Template.hasMarker "$\x7bbase\x7d/$\x7bmissing\x7d".toList = true
      ∧ Template.hasMarker "$\x7boc.env:BASE,$\x7bname\x7d\x7d".toList = true
      ∧ Template.hasMarker "run".toList = false := by decide
  have paths : KeyPath.parse "base" = .ok ["base"] ∧ KeyPath.parse "name" = .ok ["name"]
      ∧ KeyPath.parse "missing" = .ok ["missing"] := ⟨rfl, rfl, rfl⟩
  have unset : midnight.value? "BASE" = none := rfl
  have first : String.ofList (decimalDigits 0) = "0" := rfl
  simp [strandedTree, settle, settleEntries, settleItems, fill, fillPiece, parse_stranded, parse_name, markers, paths,
    base, name, missing, unset, first, Tree.entryAddress, Tree.itemAddress, run_bind, run_get, run_pure, run_throw,
    run_finish, run_record, Progress.isDone, Progress.start, Settling.ofExcept, Progress.current, Progress.text?,
    Tree.plainText, -String.reduceToList]

theorem interpolate_strandedTree :
    (strandedTree.interpolate midnight).failure = some (.referenceAbsent "missing" ["dirs", "0"])
      ∧ (strandedTree.interpolate midnight).tree = .mapping [
        ("dirs", .sequence [.string "$\x7bbase\x7d/$\x7bmissing\x7d"]),
        ("base", .string "run"),
        ("name", .string "run")] := by
  have addresses : strandedTree.addresses [] = [[], ["dirs"], ["dirs", "0"], ["base"], ["name"]] := by
    decide +kernel
  obtain ⟨log, run⟩ := exists_log strandedTree rfl rfl rfl
  rw [Tree.interpolate, addresses, run]
  exact ⟨rfl, rfl⟩

theorem interpolate_unfinished_strandedTree :
    strandedTree.HasDistinctKeys
      ∧ (strandedTree.interpolate midnight).failure = some (.referenceAbsent "missing" ["dirs", "0"])
      ∧ (strandedTree.interpolate midnight).tree.find ["base"] = some (.string "run")
      ∧ strandedTree.Refilled
        (fun text final => final = text
          ∨ Expands midnight (Reads (strandedTree.interpolate midnight).tree) text.toList final.toList)
        (strandedTree.interpolate midnight).tree
      ∧ ∃ finished, Unfinished midnight strandedTree (strandedTree.interpolate midnight).tree finished := by
  obtain ⟨fails, left⟩ := interpolate_strandedTree
  obtain ⟨refilled, unfinished⟩ := interpolate_unfinished midnight strandedTree (by decide) fails
  refine ⟨by decide, fails, ?_, refilled, unfinished⟩
  rw [left]
  rfl

end LayeredConfig.Interpolation
