import LayeredConfig.Proofs.Interpolation.Settling

/-!
# Final values

Where interpolation succeeds, every string has the text that its original expands to when each reference is read in
the final tree, and nothing else has changed: `interpolate_refilled`. A reference sees the final value however late it
is settled in the walk, because settling is `Supported` throughout and what is done stays as it is.
-/

namespace LayeredConfig

namespace Tree

mutual

/-- The second tree is the first one with other strings: the text of each is related to the text it had. -/
def Refilled (related : String → String → Prop) : Tree → Tree → Prop
  | .string text, other => ∃ final, other = .string final ∧ related text final
  | .sequence items, other => ∃ others, other = .sequence others ∧ ItemsRefilled related items others
  | .mapping entries, other => ∃ others, other = .mapping others ∧ EntriesRefilled related entries others
  | .null, other => other = .null
  | .bool value, other => other = .bool value
  | .int value, other => other = .int value
  | .double value, other => other = .double value

/-- The items of a sequence with other strings, one by one. -/
def ItemsRefilled (related : String → String → Prop) : List Tree → List Tree → Prop
  | [], others => others = []
  | item :: rest, others =>
    ∃ final finals, others = final :: finals ∧ item.Refilled related final ∧ ItemsRefilled related rest finals

/-- The entries of a mapping with other strings, under the same keys in the same order. -/
def EntriesRefilled (related : String → String → Prop) :
    List (String × Tree) → List (String × Tree) → Prop
  | [], others => others = []
  | (key, value) :: rest, others =>
    ∃ final finals, others = (key, final) :: finals ∧ value.Refilled related final
      ∧ EntriesRefilled related rest finals

end

/-- A scalar stands for a text inside another one: a string for itself, null and the booleans for their words, a number
for its digits. -/
inductive ShowsAs : Tree → List Char → Prop
  | null : ShowsAs .null "null".toList
  | yes : ShowsAs (.bool true) "true".toList
  | no : ShowsAs (.bool false) "false".toList
  | int (value : Int64) : ShowsAs (.int value) (toString value.toInt).toList
  | double (value : Binary64) : ShowsAs (.double value) value.text
  | string (text : String) : ShowsAs (.string text) text.toList

theorem plainText_eq_ok_iff {node : Tree} {text : List Char} : node.plainText = .ok text ↔ node.ShowsAs text := by
  constructor
  · intro plain
    cases node with
    | null => exact Except.ok.inj plain ▸ .null
    | bool value =>
      cases value with
      | true => exact Except.ok.inj plain ▸ .yes
      | false => exact Except.ok.inj plain ▸ .no
    | int value =>
      rw [plainText, integerText_eq_toString] at plain
      exact Except.ok.inj plain ▸ .int value
    | double value => exact Except.ok.inj plain ▸ .double value
    | string text => exact Except.ok.inj plain ▸ .string text
    | sequence | mapping => cases plain
  · intro shows
    cases shows with
    | int value => rw [plainText, integerText_eq_toString]
    | null | yes | no | double | string => rfl

variable {root : Tree} {related : String → String → Prop} {f : KeyPath → String → String}

mutual

theorem refilled_mapStrings (strings : ∀ path text, root.NodeAt path (.string text) → related text (f path text)) :
    (node : Tree) → {path : KeyPath} → root.NodeAt path node → node.Refilled related (node.mapStrings f path)
  | .string text, path, stands => ⟨f path text, rfl, strings path text stands⟩
  | .sequence items, _, stands =>
    ⟨_, rfl, items_refilled_mapStrings strings items stands.items⟩
  | .mapping entries, _, stands =>
    ⟨_, rfl, entries_refilled_mapStrings strings entries stands.entries⟩
  | .null, _, _ => rfl
  | .bool _, _, _ => rfl
  | .int _, _, _ => rfl
  | .double _, _, _ => rfl

theorem items_refilled_mapStrings
    (strings : ∀ path text, root.NodeAt path (.string text) → related text (f path text)) :
    (items : List Tree) → {path : KeyPath} → {start : Nat} → AllItems root.NodeAt path start items →
    ItemsRefilled related items (mapItemStrings f path start items)
  | [], _, _, _ => rfl
  | item :: rest, _, _, ⟨first, later⟩ =>
    ⟨_, _, rfl, refilled_mapStrings strings item first, items_refilled_mapStrings strings rest later⟩

theorem entries_refilled_mapStrings
    (strings : ∀ path text, root.NodeAt path (.string text) → related text (f path text)) :
    (entries : List (String × Tree)) → {path : KeyPath} → AllEntries root.NodeAt path entries →
    EntriesRefilled related entries (mapEntryStrings f path entries)
  | [], _, _ => rfl
  | (_, value) :: rest, _, ⟨first, later⟩ =>
    ⟨_, _, rfl, refilled_mapStrings strings value first, entries_refilled_mapStrings strings rest later⟩

end

end Tree

namespace Interpolation

variable {surroundings : Surroundings} {tree : Tree}

/-- The node at `target` is there and is a scalar that stands for this text. -/
def Reads (tree : Tree) (target : KeyPath) (text : List Char) : Prop :=
  ∃ node, tree.find target = some node ∧ node.ShowsAs text

/-- A run that starts with nothing done leaves every node done, or breaks off. -/
theorem interpolate_meets (surroundings : Surroundings) (distinct : tree.HasDistinctKeys) :
    Meets (settle surroundings tree (tree.addresses []) [] tree) .start (fun _ after =>
      Supported surroundings tree after.done
        ∧ ∀ path node, tree.NodeAt path node → path ∈ after.done.map Prod.fst)
      (BreaksOff surroundings tree) := by
  have awaited : Awaited surroundings tree (tree.addresses []) [] :=
    fun holder node stands busy => absurd stands.mem_addresses busy
  have nothing : Supported surroundings tree Progress.start.done := .nil
  have run := settle_meets distinct (Tree.nodup_addresses tree distinct) .root awaited nothing
  refine run.mono ?_
  intro _ after holds
  rcases holds with ⟨⟨supported, -⟩, done⟩
  refine ⟨supported, fun path node stands => ?_⟩
  induction stands with
  | root => exact done
  | item parent found ih => exact supported.mem_of_depends ih (.item parent found)
  | entry parent member ih => exact supported.mem_of_depends ih (.entry parent member)

/-- Interpolation puts the texts of what it has done in their places. Every node is done, or it fails for a fault. -/
theorem exists_progress (surroundings : Surroundings) (distinct : tree.HasDistinctKeys) :
    ∃ progress : Progress, (tree.interpolate surroundings).tree = progress.apply tree
      ∧ Supported surroundings tree progress.done
      ∧ ((tree.interpolate surroundings).failure = none
          ∧ (∀ path node, tree.NodeAt path node → path ∈ progress.done.map Prod.fst)
        ∨ ∃ e, (tree.interpolate surroundings).failure = some e ∧ Fault surroundings tree e) := by
  have run := interpolate_meets surroundings distinct
  unfold Meets at run
  unfold Tree.interpolate
  cases settled : settle surroundings tree (tree.addresses []) [] tree .start with
  | ok _ progress =>
    rw [settled] at run
    exact ⟨progress, rfl, run.1, .inl ⟨rfl, run.2⟩⟩
  | error e progress =>
    rw [settled] at run
    exact ⟨progress, rfl, run.2, .inr ⟨e, rfl, run.1⟩⟩

/-- Interpolation ends with every node done and the texts in their places, or it fails for a fault. -/
theorem interpolate_cases (surroundings : Surroundings) (distinct : tree.HasDistinctKeys) :
    (∃ progress : Progress, (tree.interpolate surroundings).failure = none
        ∧ (tree.interpolate surroundings).tree = progress.apply tree
        ∧ Supported surroundings tree progress.done
        ∧ ∀ path node, tree.NodeAt path node → path ∈ progress.done.map Prod.fst)
      ∨ ∃ e, (tree.interpolate surroundings).failure = some e ∧ Fault surroundings tree e := by
  obtain ⟨progress, final, supported, ⟨succeeds, done⟩ | fails⟩ := exists_progress surroundings distinct
  · exact .inl ⟨progress, succeeds, final, supported, done⟩
  · exact .inr fails

/-! ## Reading in the final tree -/

theorem find_apply (progress : Progress) (target : KeyPath) :
    (progress.apply tree).find target = (tree.find target).map fun node =>
      node.mapStrings (fun path text => (progress.text? path).getD text) target := by
  rw [Progress.apply, Tree.find_mapStrings, List.nil_append]

/-- What a node showed when it was done is what the final tree holds. -/
theorem Shown.reads (distinct : tree.HasDistinctKeys) {progress : Progress}
    (supported : Supported surroundings tree progress.done) {target : KeyPath} {text : List Char}
    (shown : Shown tree progress.done target text) : Reads (progress.apply tree) target text := by
  obtain ⟨node, entry, found, known, plain⟩ := shown
  have gets := supported.gets distinct (Tree.nodeAt_of_find found) known
  refine ⟨_, (find_apply progress target).trans (by rw [found, Option.map_some]), Tree.plainText_eq_ok_iff.1 ?_⟩
  cases node with
  | string original =>
    rw [Tree.mapStrings, Progress.text?, known]
    cases entry with
    | none => exact plain
    | some final => exact plain
  | null | bool | int | double =>
    cases gets
    exact plain
  | sequence | mapping =>
    cases gets
    cases plain

/-- A string that is done is in the tree what its original expands to there. -/
theorem expands_of_done (distinct : tree.HasDistinctKeys) {progress : Progress}
    (supported : Supported surroundings tree progress.done) {path : KeyPath} {text : String}
    (leaf : tree.NodeAt path (.string text)) (done : path ∈ progress.done.map Prod.fst) :
    Expands surroundings (Reads (progress.apply tree)) text.toList
      ((progress.text? path).getD text).toList := by
  obtain ⟨entry, known⟩ := exists_lookup done
  have gets : Expands surroundings (Shown tree progress.done) text.toList (entry.getD text).toList :=
    supported.gets distinct leaf known
  rw [Progress.text?, known]
  exact gets.mono fun target part shown => shown.reads distinct supported

/-- When every node is done, each string of the final tree is what its original expands to in that tree. -/
theorem expands_final (distinct : tree.HasDistinctKeys) {progress : Progress}
    (supported : Supported surroundings tree progress.done)
    (done : ∀ path node, tree.NodeAt path node → path ∈ progress.done.map Prod.fst)
    {path : KeyPath} {text : String} (leaf : tree.NodeAt path (.string text)) :
    Expands surroundings (Reads (progress.apply tree)) text.toList
      ((progress.text? path).getD text).toList :=
  expands_of_done distinct supported leaf (done path _ leaf)

/-- Interpolation that succeeds gives every string what its original expands to in the final tree, and changes nothing
else. -/
theorem interpolate_refilled (surroundings : Surroundings) (tree : Tree) (distinct : tree.HasDistinctKeys)
    (succeeds : (tree.interpolate surroundings).failure = none) :
    tree.Refilled
      (fun text final =>
        Expands surroundings (Reads (tree.interpolate surroundings).tree) text.toList final.toList)
      (tree.interpolate surroundings).tree := by
  rcases interpolate_cases surroundings distinct with ⟨progress, -, final, supported, done⟩ | ⟨e, fails, -⟩
  · rw [final]
    exact Tree.refilled_mapStrings (fun path text leaf => expands_final distinct supported done leaf) tree .root
  · cases succeeds.symm.trans fails

/-! ## A tree with a chain of references -/

/-- An item that leads to a string that stands later, whose fallback leads to a third, and a string with two more
variables. -/
def linkedTree : Tree :=
  .mapping [
    ("dirs", .sequence [.string "$\x7bbase\x7d/a"]),
    ("base", .string "$\x7boc.env:BASE,$\x7bname\x7d\x7d"),
    ("name", .string "run"),
    ("home", .string "$\x7boc.env: HOME ,none\x7d/$\x7boc.env:USER, nobody \x7d")]

/-- The first midnight of a year, with one variable set and one set to the empty text. -/
def midnight : Surroundings :=
  ⟨[("HOME", "/srv"), ("BASE", "")], ⟨2024, 1, 1, 0, 0, 0, 0⟩, []⟩

theorem parse_base :
    Template.parse "$\x7bbase\x7d/a".toList = [.reference "base".toList, .literal "/a".toList] := by
  have first : FirstPlaceholder "$\x7bbase\x7d/a".toList [] "base".toList "/a".toList :=
    firstPlaceholder_of_split rfl rfl
  rw [Template.parse, pieces_of_first _ first, pieceOf_reference (by decide) (by decide),
    pieces_of_literal _ rfl]
  rfl

theorem parse_name :
    Template.parse "$\x7boc.env:BASE,$\x7bname\x7d\x7d".toList
      = [.variable "BASE".toList [.reference "name".toList]] := by
  have outer : FirstPlaceholder "$\x7boc.env:BASE,$\x7bname\x7d\x7d".toList []
      (Template.variableMark ++ "BASE,$\x7bname\x7d".toList) [] := firstPlaceholder_of_split rfl rfl
  have inner : FirstPlaceholder "$\x7bname\x7d".toList [] "name".toList [] := firstPlaceholder_of_split rfl rfl
  have fallback : Template.parse (variableFallback "BASE,$\x7bname\x7d".toList) = [.reference "name".toList] := by
    show Template.parse "$\x7bname\x7d".toList = _
    rw [Template.parse, pieces_of_first _ inner, pieceOf_reference (by decide) (by decide),
      pieces_of_literal _ rfl]
    rfl
  rw [Template.parse, pieces_of_first _ outer, pieceOf_variable, fallback, pieces_of_literal _ rfl]
  rfl

theorem parse_home :
    Template.parse "$\x7boc.env: HOME ,none\x7d/$\x7boc.env:USER, nobody \x7d".toList
      = [.variable "HOME".toList [.literal "none".toList], .literal "/".toList,
        .variable "USER".toList [.literal "nobody".toList]] := by
  have first : FirstPlaceholder "$\x7boc.env: HOME ,none\x7d/$\x7boc.env:USER, nobody \x7d".toList []
      (Template.variableMark ++ " HOME ,none".toList) "/$\x7boc.env:USER, nobody \x7d".toList :=
    firstPlaceholder_of_split rfl rfl
  have second : FirstPlaceholder "/$\x7boc.env:USER, nobody \x7d".toList "/".toList
      (Template.variableMark ++ "USER, nobody ".toList) [] := firstPlaceholder_of_split rfl rfl
  have none : Template.parse (variableFallback " HOME ,none".toList) = [.literal "none".toList] :=
    pieces_of_literal _ rfl
  have nobody : Template.parse (variableFallback "USER, nobody ".toList) = [.literal "nobody".toList] :=
    pieces_of_literal _ rfl
  rw [Template.parse, pieces_of_first _ first, pieceOf_variable, none, pieces_of_first _ second, pieceOf_variable,
    nobody, pieces_of_literal _ rfl]
  rfl

theorem exists_run (tree : Tree) (base : tree.find ["base"] = some (.string "$\x7boc.env:BASE,$\x7bname\x7d\x7d"))
    (name : tree.find ["name"] = some (.string "run")) :
    ∃ log, settle midnight tree [[], ["dirs"], ["dirs", "0"], ["base"], ["name"], ["home"]] [] linkedTree .start
      = .ok () ⟨[([], none), (["home"], some "/srv/nobody"), (["dirs"], none), (["dirs", "0"], some "run/a"),
        (["base"], some "run"), (["name"], none)], log⟩ := by
  have markers : Template.hasMarker "$\x7bbase\x7d/a".toList = true
      ∧ Template.hasMarker "$\x7boc.env:BASE,$\x7bname\x7d\x7d".toList = true
      ∧ Template.hasMarker "run".toList = false
      ∧ Template.hasMarker "$\x7boc.env: HOME ,none\x7d/$\x7boc.env:USER, nobody \x7d".toList = true := by decide
  have paths : KeyPath.parse "base" = .ok ["base"] ∧ KeyPath.parse "name" = .ok ["name"] := ⟨rfl, rfl⟩
  have values : midnight.value? "BASE" = none ∧ midnight.value? "HOME" = some "/srv"
      ∧ midnight.value? "USER" = none := ⟨rfl, rfl, rfl⟩
  have first : String.ofList (decimalDigits 0) = "0" := rfl
  simp [linkedTree, settle, settleEntries, settleItems, fill, fillPiece, parse_base, parse_name, parse_home, markers,
    paths, base, name, values, first, Tree.entryAddress, Tree.itemAddress, run_bind, run_get, run_pure, run_finish,
    run_record, Progress.isDone, Progress.start, Settling.ofExcept, Progress.current, Progress.text?, Tree.plainText,
    -String.reduceToList]

theorem interpolate_linkedTree :
    (linkedTree.interpolate midnight).failure = none
      ∧ (linkedTree.interpolate midnight).tree = .mapping [
        ("dirs", .sequence [.string "run/a"]),
        ("base", .string "run"),
        ("name", .string "run"),
        ("home", .string "/srv/nobody")] := by
  have addresses : linkedTree.addresses [] = [[], ["dirs"], ["dirs", "0"], ["base"], ["name"], ["home"]] := by
    decide +kernel
  obtain ⟨log, run⟩ := exists_run linkedTree rfl rfl
  rw [Tree.interpolate, addresses, run]
  exact ⟨rfl, rfl⟩

/-- Of the three variables one is set, one is set to the empty text and one is not set. -/
theorem interpolate_refilled_linkedTree :
    midnight.environment = [("HOME", "/srv"), ("BASE", "")]
      ∧ linkedTree.HasDistinctKeys ∧ (linkedTree.interpolate midnight).failure = none
      ∧ (linkedTree.interpolate midnight).tree = .mapping [
        ("dirs", .sequence [.string "run/a"]),
        ("base", .string "run"),
        ("name", .string "run"),
        ("home", .string "/srv/nobody")]
      ∧ linkedTree.Refilled
        (fun text final =>
          Expands midnight (Reads (linkedTree.interpolate midnight).tree) text.toList final.toList)
        (linkedTree.interpolate midnight).tree := by
  obtain ⟨succeeds, final⟩ := interpolate_linkedTree
  exact ⟨rfl, by decide, succeeds, final, interpolate_refilled midnight linkedTree (by decide) succeeds⟩

end Interpolation

end LayeredConfig
