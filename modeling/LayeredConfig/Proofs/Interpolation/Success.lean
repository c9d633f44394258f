import LayeredConfig.Proofs.Interpolation.FinalValues
import LayeredConfig.Proofs.Tree.Reordering

/-!
# When interpolation succeeds

Interpolation succeeds on the trees that are `Resolvable`, `succeeds_iff`. A run that fails does so for a `Fault`, which
a resolvable tree has not; a run that succeeds has done every node after what it depends on, so nothing depends on
itself. What a tree needs, and the texts that its strings get, do not depend on the order of entries.
-/

namespace LayeredConfig.Interpolation

open Relation

variable {surroundings : Surroundings} {tree other : Tree}

/-! ## Runs that succeed -/

theorem Shown.scalar (distinct : tree.HasDistinctKeys) {done : List (KeyPath × Option String)}
    (supported : Supported surroundings tree done) {target : KeyPath} {text : List Char}
    (shown : Shown tree done target text) :
    ∃ node, tree.find target = some node ∧ node.isContainer = false := by
  obtain ⟨node, entry, found, known, plain⟩ := shown
  refine ⟨node, found, ?_⟩
  have gets := supported.gets distinct (Tree.nodeAt_of_find found) known
  cases node with
  | sequence | mapping =>
    cases gets
    cases plain
  | null | bool | int | double | string => rfl

/-- A tree whose strings can all be done, each after what it depends on, is resolvable. -/
theorem Supported.resolvable (distinct : tree.HasDistinctKeys) {done : List (KeyPath × Option String)}
    (supported : Supported surroundings tree done)
    (all : ∀ path text, tree.NodeAt path (.string text) → path ∈ done.map Prod.fst) :
    Resolvable surroundings tree := by
  have expands {path : KeyPath} {text : String} (leaf : tree.NodeAt path (.string text)) :
      ∃ out, Expands surroundings (Shown tree done) text.toList out := by
    obtain ⟨entry, known⟩ := exists_lookup (all path _ leaf)
    exact ⟨_, supported.gets distinct leaf known⟩
  refine ⟨fun path text leaf => ?_, fun path text expression leaf evaluates => ?_, fun path cycle => ?_⟩
  · obtain ⟨out, whole⟩ := expands leaf
    exact whole.closed
  · obtain ⟨out, whole⟩ := expands leaf
    obtain ⟨target, part, parses, shown⟩ := whole.of_evaluates evaluates
    obtain ⟨node, found, scalar⟩ := shown.scalar distinct supported
    exact ⟨target, node, parses, found, scalar⟩
  · have around : TransGen (Depends surroundings tree) path path :=
      TransGen.mono (fun _ _ refers => .reference refers.1) path path cycle
    obtain ⟨middle, -, -, text, leaf⟩ := TransGen.tail'_iff.1 cycle
    exact not_transGen_of_acc (supported.acc (all path _ leaf)) around

theorem Fault.not_resolvable (distinct : tree.HasDistinctKeys) {e : Error} (fault : Fault surroundings tree e) :
    ¬Resolvable surroundings tree := by
  intro resolvable
  rcases fault with ⟨path, -, cycle⟩ | ⟨-, flawed⟩
  · obtain ⟨leaf, around⟩ := exists_leafRefers_cycle distinct resolvable.not_flawed cycle
    exact resolvable.acyclic leaf around
  · exact resolvable.not_flawed flawed

/-- Interpolation succeeds on the trees that are resolvable. -/
theorem succeeds_iff (surroundings : Surroundings) (distinct : tree.HasDistinctKeys) :
    (tree.interpolate surroundings).failure = none ↔ Resolvable surroundings tree := by
  rcases interpolate_cases surroundings distinct with ⟨progress, succeeds, -, supported, all⟩ | ⟨e, fails, fault⟩
  · exact ⟨fun _ => supported.resolvable distinct fun path _ => all path _, fun _ => succeeds⟩
  · rw [fails]
    exact ⟨nofun, fun resolvable => absurd resolvable (fault.not_resolvable distinct)⟩

/-! ## The order of entries -/

theorem leaf_of_alike (alike : other.Alike tree) {path : KeyPath} {text : String}
    (leaf : other.NodeAt path (.string text)) : tree.NodeAt path (.string text) := by
  obtain ⟨node, stands, same⟩ := alike.nodeAt leaf
  cases same
  exact stands

theorem LeafRefers.of_alike (alike : other.Alike tree) {path target : KeyPath}
    (refers : LeafRefers surroundings other path target) : LeafRefers surroundings tree path target := by
  obtain ⟨⟨text, expression, node, leaf, evaluates, parses, found⟩, text', leaf'⟩ := refers
  obtain ⟨node', found', -⟩ := alike.find found
  exact ⟨⟨text, expression, node', leaf_of_alike alike leaf, evaluates, parses, found'⟩, text',
    leaf_of_alike alike leaf'⟩

theorem Resolvable.of_alike (alike : tree.Alike other) (alike' : other.Alike tree)
    (resolvable : Resolvable surroundings tree) : Resolvable surroundings other := by
  refine ⟨fun path text leaf => ?_, fun path text expression leaf evaluates => ?_, fun path cycle => ?_⟩
  · exact resolvable.closed path text (leaf_of_alike alike' leaf)
  · obtain ⟨target, node, parses, found, scalar⟩ :=
      resolvable.resolves path text expression (leaf_of_alike alike' leaf) evaluates
    obtain ⟨node', found', same⟩ := alike.find found
    exact ⟨target, node', parses, found', same.isContainer.trans scalar⟩
  · exact resolvable.acyclic path (TransGen.mono (fun _ _ refers => refers.of_alike alike') path path cycle)

/-- Two readings of one plain text: the final texts of trees that are alike agree where the texts of strings do. -/
theorem Reads.unique (alike : tree.Alike other) {progress progress' : Progress} {target : KeyPath}
    (same : ∀ text, tree.NodeAt target (.string text) →
      (progress.text? target).getD text = (progress'.text? target).getD text)
    {part part' : List Char} (reads : Reads (progress.apply tree) target part)
    (reads' : Reads (progress'.apply other) target part') : part = part' := by
  obtain ⟨final, found, shows⟩ := reads
  obtain ⟨final', found', shows'⟩ := reads'
  have plain := Tree.plainText_eq_ok_iff.2 shows
  have plain' := Tree.plainText_eq_ok_iff.2 shows'
  rw [find_apply] at found found'
  obtain ⟨node, inside, rfl⟩ := Option.map_eq_some_iff.1 found
  obtain ⟨node', inside', rfl⟩ := Option.map_eq_some_iff.1 found'
  obtain ⟨other', inside'', alike'⟩ := alike.find inside
  cases inside'.symm.trans inside''
  cases node with
  | string text =>
    cases alike'
    rw [Tree.mapStrings, Tree.plainText, same text (Tree.nodeAt_of_find inside)] at plain
    exact Except.ok.inj (plain.symm.trans plain')
  | null | bool | int | double =>
    cases alike'
    exact Except.ok.inj (plain.symm.trans plain')
  | sequence | mapping => cases plain

/-- The texts that strings get do not depend on the order of entries. -/
theorem text_unique (distinct : tree.HasDistinctKeys) (distinct' : other.HasDistinctKeys)
    (alike : tree.Alike other) {progress progress' : Progress}
    (supported : Supported surroundings tree progress.done)
    (all : ∀ path node, tree.NodeAt path node → path ∈ progress.done.map Prod.fst)
    (supported' : Supported surroundings other progress'.done)
    (all' : ∀ path node, other.NodeAt path node → path ∈ progress'.done.map Prod.fst)
    (path : KeyPath) (text : String) (leaf : tree.NodeAt path (.string text)) :
    (progress.text? path).getD text = (progress'.text? path).getD text := by
  have acc := supported.acc (all path _ leaf)
  induction acc generalizing text with
  | intro path _ ih =>
    have expands := expands_final distinct supported all leaf
    have expands' := expands_final distinct' supported' all' (leaf_of_alike alike leaf)
    refine String.toList_inj.1 (expands.unique expands' ?_)
    intro expression target evaluates parses part part' reads reads'
    refine Reads.unique alike (fun text' leaf' => ih target ?_ text' leaf') reads reads'
    obtain ⟨node, found, -⟩ := reads
    rw [find_apply] at found
    obtain ⟨inner, inside, -⟩ := Option.map_eq_some_iff.1 found
    exact .reference ⟨text, expression, inner, leaf, evaluates, parses, inside⟩

theorem final_alike (distinct : tree.HasDistinctKeys) (distinct' : other.HasDistinctKeys)
    (alike : tree.Alike other) (succeeds : (tree.interpolate surroundings).failure = none)
    (succeeds' : (other.interpolate surroundings).failure = none) :
    (tree.interpolate surroundings).tree.Alike (other.interpolate surroundings).tree := by
  rcases interpolate_cases surroundings distinct with ⟨progress, -, final, supported, all⟩ | ⟨e, fails, -⟩
  · rcases interpolate_cases surroundings distinct' with ⟨progress', -, final', supported', all'⟩ | ⟨e, fails, -⟩
    · rw [final, final']
      exact Tree.alike_mapStrings
        (text_unique distinct distinct' alike supported all supported' all') tree .root alike
    · cases succeeds'.symm.trans fails
  · cases succeeds.symm.trans fails

/-- Interpolation succeeds on the trees that are resolvable. The order of entries changes neither that nor the outcome,
and a cycle is named only where a node depends on itself. -/
theorem interpolate_exact (surroundings : Surroundings) (tree : Tree) (distinct : tree.HasDistinctKeys) :
    ((tree.interpolate surroundings).failure = none ↔ Resolvable surroundings tree)
      ∧ (∀ other : Tree, other.HasDistinctKeys → tree.Alike other →
        ((other.interpolate surroundings).failure = none ↔ (tree.interpolate surroundings).failure = none)
          ∧ ((tree.interpolate surroundings).failure = none →
            (tree.interpolate surroundings).tree.Alike (other.interpolate surroundings).tree))
      ∧ ∀ path, (tree.interpolate surroundings).failure = some (.interpolationCycle path) →
        TransGen (Depends surroundings tree) path path := by
  refine ⟨succeeds_iff surroundings distinct, fun other distinct' alike => ?_, fun path named => ?_⟩
  · have alike' : other.Alike tree := alike.symm distinct distinct'
    have both : (other.interpolate surroundings).failure = none
        ↔ (tree.interpolate surroundings).failure = none := by
      rw [succeeds_iff surroundings distinct, succeeds_iff surroundings distinct']
      exact ⟨.of_alike alike' alike, .of_alike alike alike'⟩
    exact ⟨both, fun succeeds => final_alike distinct distinct' alike succeeds (both.2 succeeds)⟩
  · rcases interpolate_cases surroundings distinct with ⟨_, succeeds, -⟩ | ⟨e, fails, fault⟩
    · cases succeeds.symm.trans named
    · cases fails.symm.trans named
      rcases fault with ⟨path', same, cycle⟩ | ⟨other, -⟩
      · cases same
        exact cycle
      · exact absurd rfl (other path)

theorem interpolate_exact_linkedTree :
    Resolvable midnight linkedTree ∧ (linkedTree.ordered.interpolate midnight).failure = none := by
  have succeeds := interpolate_linkedTree.1
  have exact := interpolate_exact midnight linkedTree (by decide)
  have distinct := Tree.hasDistinctKeys_ordered linkedTree (by decide)
  have alike := Tree.alike_ordered linkedTree (by decide)
  exact ⟨exact.1.1 succeeds, (exact.2.1 linkedTree.ordered distinct alike).1.2 succeeds⟩

end LayeredConfig.Interpolation
