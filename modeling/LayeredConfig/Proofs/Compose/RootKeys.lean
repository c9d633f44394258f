import LayeredConfig.Proofs.Compose.Cycles
import LayeredConfig.Proofs.Compose.Grouped

/-!
# Where the keys of a root come from

A key at the root of a composed tree was written at the root of a file, or begins the key path of a group: `origin_of_load`.
Only entries that are merged at the root lead from the file that is loaded to the file that gives the key. The list of
includes is taken out of each file before anything is laid over it, so that its key stands at the root only where a group
puts it there: `reserved_key_from_group`.
-/

namespace LayeredConfig.Compose

/-- The file at a place lists an entry, other than the one that stands for the file itself, for a file that is there. -/
inductive Draws (store : File.Store) (place : File.Place) (inclusion : Include) : Prop
  | entry {content : ByteArray} {entries : List (String × Tree)} {items : List Tree} {item : Tree}
      (present : store.contentAt place = .ok content) (root : readContent place content = .ok (.mapping entries))
      (listed : entries.lookup includesKey = some (.sequence items)) (member : item ∈ items)
      (notSelf : isSelf item = false) (parses : Include.parse (.ofNames place.dropLast) item = .ok inclusion)
      (held : store.holds inclusion.file = true) : Draws store place inclusion

/-- The file at `place` lists an entry for the file at `other` that is merged at the root. -/
def DrawsBare (store : File.Store) (place other : File.Place) : Prop :=
  ∃ inclusion, Draws store place inclusion ∧ inclusion.target = none ∧ inclusion.file.names = other

/-- The file at a place lists a group whose key path begins with a key. -/
def DrawsUnder (store : File.Store) (place : File.Place) (key : String) : Prop :=
  ∃ inclusion rest, Draws store place inclusion ∧ inclusion.target = some (key :: rest)

/-- A key stands at the root of the file at a place, and is not the one that lists the includes. -/
def WritesKey (store : File.Store) (place : File.Place) (key : String) : Prop :=
  ∃ content root, store.contentAt place = .ok content ∧ readContent place content = .ok root
    ∧ key ∈ root.keys ∧ key ≠ includesKey

variable {store : File.Store} {place : File.Place} {opened : List File.Place} {child : File.Place → Except Error Tree}
  {base : File.Path} {composed entry result : Tree} {key : String} {entries : List (String × Tree)}

theorem mem_keys_erase_iff {name : String} :
    key ∈ (Tree.mapping (Entries.erase name entries)).keys ↔ key ∈ (Tree.mapping entries).keys ∧ key ≠ name := by
  simp only [Tree.keys, Entries.erase, List.mem_map, List.mem_filter, bne_iff_ne]
  constructor
  · rintro ⟨entry, ⟨member, other⟩, rfl⟩
    exact ⟨⟨entry, member, rfl⟩, other⟩
  · rintro ⟨⟨entry, member, rfl⟩, other⟩
    exact ⟨entry, ⟨member, other⟩, rfl⟩

/-! ## One entry, one file, one load -/

/-- An entry brings the keys of the tree that it merges at the root, or the first key of the path of its group. -/
theorem origin_of_addEntry (adds : addEntry store child base composed entry = .ok result) (member : key ∈ result.keys) :
    key ∈ composed.keys ∨ ∃ inclusion, isSelf entry = false ∧ Include.parse base entry = .ok inclusion
      ∧ store.holds inclusion.file = true
      ∧ ((∃ rest, inclusion.target = some (key :: rest))
        ∨ inclusion.target = none ∧ ∃ tree, child inclusion.file.names = .ok tree ∧ key ∈ tree.keys) := by
  rcases addEntry_cases adds with rfl | ⟨⟨file, target, optional⟩, tree, notSelf, parses, held, loads, placed⟩
  · exact .inl member
  · cases target with
    | none =>
      cases placed
      refine (Tree.mem_keys_merge member).imp_right fun above => ?_
      exact ⟨_, notSelf, parses, held, .inr ⟨rfl, tree, loads, above⟩⟩
    | some target =>
      obtain ⟨first, rest, rfl⟩ := List.exists_cons_of_ne_nil (target_ne_nil parses)
      rw [eq_merge_of_place (List.cons_ne_nil first rest) placed] at member
      refine (Tree.mem_keys_merge member).imp_right fun above => ?_
      cases List.mem_singleton.1 above
      exact ⟨_, notSelf, parses, held, .inl ⟨rest, rfl⟩⟩

/-- The includes of a file bring the keys that its groups begin with, and those of the trees that it merges at the root. -/
theorem origin_of_included {content : ByteArray} (present : store.contentAt place = .ok content)
    (reads : readContent place content = .ok (.mapping entries))
    (includes : included store child place entries = .ok composed) (member : key ∈ composed.keys) :
    DrawsUnder store place key ∨ ∃ other tree, DrawsBare store place other ∧ child other = .ok tree ∧ key ∈ tree.keys := by
  rcases included_cases includes with ⟨-, rfl⟩ | ⟨items, listed, run⟩
  · cases member
  · -- If nothing brings the key, it is missing from what is composed after each entry.
    by_contra origin
    have keeps (item : Tree) (listing : item ∈ items) (before after : Tree) (without : key ∉ before.keys)
        (adds : addEntry store child (.ofNames place.dropLast) before item = .ok after) : key ∉ after.keys := by
      intro member
      rcases origin_of_addEntry adds member with earlier | ⟨inclusion, notSelf, parses, held, brings⟩
      · exact without earlier
      · have draws : Draws store place inclusion := .entry present reads listed listing notSelf parses held
        rcases brings with ⟨rest, grouped⟩ | ⟨bare, tree, loads, above⟩
        · exact origin (.inl ⟨inclusion, rest, draws, grouped⟩)
        · exact origin (.inr ⟨_, tree, ⟨inclusion, draws, bare, rfl⟩, loads, above⟩)
    exact Outcome.invariant_of_foldlM_eq_ok keeps List.not_mem_nil run member

/-- A file brings the keys that it writes and those that its includes bring. -/
theorem origin_of_composition (composes : composition store child place = .ok result) (member : key ∈ result.keys) :
    WritesKey store place key ∨ DrawsUnder store place key
      ∨ ∃ other tree, DrawsBare store place other ∧ child other = .ok tree ∧ key ∈ tree.keys := by
  obtain ⟨content, root, present, reads, ⟨rfl, rfl⟩ | ⟨entries, composed, rfl, includes, rfl⟩ | ⟨noMapping, rfl⟩⟩ :=
    composition_cases composes
  · cases member
  · rcases Tree.mem_keys_merge member with below | above
    · exact .inr (origin_of_included present reads includes below)
    · exact .inl ⟨content, _, present, reads, mem_keys_erase_iff.1 above⟩
  · cases result with
    | mapping => cases noMapping
    | null | bool | int | double | string | sequence => cases member

/-- A key of a composed root is written in a file that entries merged at the root lead to, or begins a group there. -/
theorem origin_of_load {place : File.Place} {opened : List File.Place} {result : Tree}
    (loads : (load store opened place).outcome = .ok result) (member : key ∈ result.keys) :
    ∃ other, Relation.ReflTransGen (DrawsBare store) place other
      ∧ (WritesKey store other key ∨ DrawsUnder store other key) := by
  rw [outcome_load] at loads
  split at loads
  · cases loads
  · next fresh =>
    rcases origin_of_composition loads member with writes | groups | ⟨other, tree, draws, inner, above⟩
    · exact ⟨place, .refl, .inl writes⟩
    · exact ⟨place, .refl, .inr groups⟩
    · obtain ⟨inclusion, ⟨present, -⟩, -⟩ := id draws
      have shorter := length_unopened_lt (mem_of_contentAt present) fresh
      obtain ⟨last, leads, origin⟩ := origin_of_load inner above
      exact ⟨last, .head draws leads, origin⟩
termination_by (unopened store opened).length

/-- Where the key that lists the includes stands at the root of what a file is composed to, a group whose key path begins
with it is listed in that file, or in one that entries merged at the root lead to. -/
theorem reserved_key_from_group (store : File.Store) (path : String) (tree : Tree)
    (loads : (file store path).outcome = .ok tree) (reserved : includesKey ∈ tree.keys) :
    ∃ other, Relation.ReflTransGen (DrawsBare store) (rootPlace store path) other
      ∧ DrawsUnder store other includesKey := by
  rw [file] at loads
  split at loads
  · cases loads
  · obtain ⟨other, leads, ⟨-, -, -, -, -, apart⟩ | groups⟩ := origin_of_load loads reserved
    · exact absurd rfl apart
    · exact ⟨other, leads, groups⟩

/-- A file that merges one at the root which puts a third under the key of the includes. -/
def reservedStore : File.Store :=
  ⟨[(["main.yaml"], .file (File.contentOf "defaults:\n- part\nb: 2\n".toList)),
    (["part.yaml"], .file (File.contentOf "defaults:\n- defaults: base\n- _self_\n".toList)),
    (["defaults"], .directory),
    (["defaults", "base.yaml"], .file (File.contentOf "a: 1\n".toList))], []⟩

theorem reserved_key_from_group_reservedStore :
    (file reservedStore "main.yaml").outcome = .ok (.mapping [("defaults", .mapping [("a", .int 1)]), ("b", .int 2)])
      ∧ ∃ other, Relation.ReflTransGen (DrawsBare reservedStore) (rootPlace reservedStore "main.yaml") other
        ∧ DrawsUnder reservedStore other includesKey := by
  have path : (File.Path.ofText "main.yaml").names = ["main.yaml"] := by decide +kernel
  have place : rootPlace reservedStore "main.yaml" = ["main.yaml"] := by decide +kernel
  have loads : (file reservedStore "main.yaml").outcome
      = .ok (.mapping [("defaults", .mapping [("a", .int 1)]), ("b", .int 2)]) := by
    rw [file, if_neg (by simp [File.Path.holdsNull, path])]
    show (load _ [] (rootPlace reservedStore "main.yaml")).outcome = _
    rw [place]
    exact outcome_load_of_within (Nat.lt_succ_self 4) (by decide +kernel)
  exact ⟨loads, reserved_key_from_group reservedStore "main.yaml" _ loads (by decide)⟩

end LayeredConfig.Compose
