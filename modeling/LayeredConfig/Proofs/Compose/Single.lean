import LayeredConfig.Proofs.Compose.Equation
import LayeredConfig.Proofs.Tree.MadeOf

/-!
# A file without includes

Laying a tree over an empty mapping gives the tree, so that a single file that lists no includes is composed to the tree
that it holds: `files_of_readContent`.
-/

namespace LayeredConfig

namespace Tree

/-- Entries under new keys are added in their order. -/
theorem mergeEntries_of_fresh {lowers uppers : List (String × Tree)}
    (distinct : ((lowers ++ uppers).map Prod.fst).Nodup) : mergeEntries lowers uppers = lowers ++ uppers := by
  induction uppers generalizing lowers with
  | nil => exact (List.append_nil lowers).symm
  | cons entry rest ih =>
    obtain ⟨key, value⟩ := entry
    have fresh : key ∉ lowers.map Prod.fst := by
      rw [List.map_append, List.nodup_append] at distinct
      exact fun member => distinct.2.2 key member key List.mem_cons_self rfl
    rw [mergeEntries_cons, Entries.lookup_eq_none_iff.2 fresh, Entries.put_of_not_mem fresh, ih, List.append_assoc]
    · rfl
    · rwa [List.append_assoc]

theorem empty_merge {entries : List (String × Tree)} (distinct : (entries.map Prod.fst).Nodup) :
    (Tree.mapping []).merge (.mapping entries) = .mapping entries :=
  congrArg Tree.mapping (mergeEntries_of_fresh distinct)

end Tree

namespace Compose

variable {store : File.Store} {place : File.Place} {content : ByteArray} {entries : List (String × Tree)}

/-- A file that lists no includes holds its tree. -/
theorem load_of_readContent (present : store.contentAt place = .ok content)
    (root : readContent place content = .ok (.mapping entries)) (noIncludes : entries.lookup includesKey = none)
    (distinct : (entries.map Prod.fst).Nodup) : (load store [] place).outcome = .ok (.mapping entries) := by
  rw [outcome_load, if_neg (by simp), composition, present]
  dsimp only
  rw [root]
  show Except.bind (included store _ place entries) _ = _
  rw [included, noIncludes, Entries.erase_of_lookup noIncludes]
  exact congrArg Except.ok (Tree.empty_merge distinct)

/-- A single file that lists no includes is composed to the tree that it holds. -/
theorem files_of_readContent {path : String} (noNull : (File.Path.ofText path).holdsNull = false)
    (present : store.contentAt ((File.Path.ofText path).resolve store.here) = .ok content)
    (root : readContent ((File.Path.ofText path).resolve store.here) content = .ok (.mapping entries))
    (noIncludes : entries.lookup includesKey = none) (distinct : (entries.map Prod.fst).Nodup) :
    (files store [path]).outcome = .ok (.mapping entries) := by
  have single : (file store path).outcome = .ok (.mapping entries) := by
    rw [file, noNull]
    exact load_of_readContent present root noIncludes distinct
  rw [files, filesOver, Logged.outcome_bind, single]
  exact congrArg Except.ok (Tree.empty_merge distinct)

end Compose

end LayeredConfig
