import LayeredConfig.Proofs.Compose.Visiting
import Mathlib.Data.List.Nodup

/-!
# Composition is compositional

The outcome of a file from which no chain of includes reaches a file twice is the equation `composition` over the files
that it includes, each loaded by itself: `file_compositional`. The files that are open around a load do not matter to
it, and a loader that keeps them in a set that it changes leaves that set as it finds it.

A store whose files are ranked, each above the files that it lists, has no such chain (`unrepeated_of_ranked`), and
whether a ranking fits can be computed.
-/

namespace LayeredConfig.Compose

/-- The outcome of a file from which no chain of includes reaches a file twice, over its includes loaded by
themselves. -/
theorem file_compositional (store : File.Store) (path : String) (place : File.Place)
    (named : (File.Path.ofText path).holdsNull = false)
    (leads : (File.Path.ofText path).resolve store.here = place) (unrepeated : Unrepeated store place) :
    (file store path).outcome = composition store (standalone store) place
      ∧ (∀ opened, Clear store opened place → (load store opened place).outcome = (file store path).outcome)
      ∧ ∀ visit : File.Place → Visiting Tree, (∀ other, visit other = visitWith store visit other)
        ↔ ∀ other visiting, visit other visiting = keeping (load store visiting other).outcome visiting := by
  have alone : file store path = load store [] place := by
    rw [file, named, leads]
    rfl
  have whole := outcome_load_of_clear unrepeated (.nil place)
  refine ⟨by rw [alone, whole], fun opened clear => ?_, visits_iff store⟩
  rw [alone, whole]
  exact outcome_load_of_clear unrepeated clear

/-! ## Ranked stores -/

/-- The places of the files that a file lists, there or not. -/
def listedPlaces (store : File.Store) (place : File.Place) : List File.Place :=
  match store.contentAt place with
  | .error _ => []
  | .ok content =>
    match readContent place content with
    | .ok (.mapping entries) =>
      match entries.lookup includesKey with
      | some (.sequence items) =>
        items.filterMap fun item =>
          match Include.parse (.ofNames place.dropLast) item with
          | .ok inclusion => some inclusion.file.names
          | .error _ => none
      | _ => []
    | _ => []

/-- Whether each file of a store ranks above the files that it lists. -/
def isRanked (store : File.Store) (rank : File.Place → Nat) : Bool :=
  (store.nodes.map Prod.fst).all fun place => (listedPlaces store place).all fun other => rank other < rank place

theorem Processes.mem_listedPlaces {store : File.Store} {place other : File.Place}
    (processes : Processes store place other) : other ∈ listedPlaces store place := by
  cases processes with
  | @entry content entries before after item composed inclusion present root listed _ _ parses _ =>
    simp only [listedPlaces, present, root, listed]
    refine List.mem_filterMap.2 ⟨item, by simp, ?_⟩
    rw [parses]

/-- In a ranked store the ranks fall along every chain of includes. -/
theorem unrepeated_of_ranked {store : File.Store} (rank : File.Place → Nat) (ranked : isRanked store rank = true)
    (place : File.Place) : Unrepeated store place := by
  intro chain links
  have falls : (place :: chain).IsChain fun upper lower => rank lower < rank upper := by
    refine links.imp fun upper lower processes => ?_
    have below := List.all_eq_true.1 ranked upper processes.present
    exact of_decide_eq_true (List.all_eq_true.1 below lower processes.mem_listedPlaces)
  have ranks : ((place :: chain).map rank).Pairwise (· > ·) :=
    List.isChain_iff_pairwise.1 ((List.isChain_map rank).2 falls)
  exact List.Nodup.of_map rank (ranks.imp Nat.ne_of_gt)

/-- Two files, one of them in a group, that share an include. -/
def sharedStore : File.Store :=
  ⟨[(["main.yaml"], .file (File.contentOf "defaults:\n- left\n- part: right\n- _self_\na: 1\n".toList)),
    (["left.yaml"], .file (File.contentOf "defaults:\n- base\nb: 2\n".toList)),
    (["part"], .directory),
    (["part", "right.yaml"], .file (File.contentOf "defaults:\n- ../base\nc: 3\n".toList)),
    (["base.yaml"], .file (File.contentOf "b: 1\nd: 4\n".toList))], []⟩

/-- The ranks of the files of `sharedStore`. -/
def sharedRank (place : File.Place) : Nat :=
  if place = ["main.yaml"] then 2 else if place = ["base.yaml"] then 0 else 1

theorem isRanked_sharedStore : isRanked sharedStore sharedRank = true := by
  decide +kernel

theorem file_compositional_sharedStore :
    Unrepeated sharedStore ["main.yaml"]
      ∧ (file sharedStore "main.yaml").outcome = composition sharedStore (standalone sharedStore) ["main.yaml"] := by
  have unrepeated := unrepeated_of_ranked sharedRank isRanked_sharedStore ["main.yaml"]
  have names : (File.Path.ofText "main.yaml").names = ["main.yaml"] := by decide +kernel
  have named : (File.Path.ofText "main.yaml").holdsNull = false := by simp [File.Path.holdsNull, names]
  have whole := file_compositional sharedStore "main.yaml" ["main.yaml"] named (by decide +kernel) unrepeated
  exact ⟨unrepeated, whole.1⟩

end LayeredConfig.Compose
