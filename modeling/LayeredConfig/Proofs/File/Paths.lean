import LayeredConfig.File.Store

/-!
# Where paths lead

A path is made normal by its names alone, and followed by what stands in a store. Where following a path from the top
succeeds, its normal form names the place that is reached (`names_normal_of_placeOf`), so that all spellings of a place
have one normal form. Normal paths from the top have no double dots and are not changed by being made normal.
-/

namespace LayeredConfig.File

/-! ## Double dots -/

/-- Names without double dots among them. -/
def Plain (names : List String) : Prop :=
  ∀ name ∈ names, name ≠ ".."

instance (names : List String) : Decidable (Plain names) :=
  inferInstanceAs (Decidable (∀ name ∈ names, name ≠ ".."))

theorem plain_nil : Plain [] :=
  fun _ member => absurd member List.not_mem_nil

theorem Plain.dropLast {names : List String} (plain : Plain names) : Plain names.dropLast :=
  fun name member => plain name (List.dropLast_subset names member)

namespace Path

theorem collapse_cons_of_ne {name : String} (named : name ≠ "..") (atTop : Bool) (above rest : List String) :
    collapse atTop above (name :: rest) = collapse atTop (name :: above) rest := by
  rw [collapse.eq_def]
  exact if_neg named

/-- At the top double dots lead nowhere. -/
theorem collapse_top_dots (rest : List String) : collapse true [] (".." :: rest) = collapse true [] rest := by
  rw [collapse.eq_def]
  rfl

theorem collapse_cons_dots {last : String} (named : last ≠ "..") (atTop : Bool) (others rest : List String) :
    collapse atTop (last :: others) (".." :: rest) = collapse atTop others rest := by
  rw [collapse.eq_def]
  exact if_neg named

theorem collapse_of_plain {names : List String} (plain : Plain names) (atTop : Bool) (above : List String) :
    collapse atTop above names = above.reverse ++ names := by
  induction names generalizing above with
  | nil => rw [collapse, List.append_nil]
  | cons name rest ih =>
    obtain ⟨named, plain⟩ := List.forall_mem_cons.1 plain
    rw [collapse_cons_of_ne named, ih plain, List.reverse_cons, List.append_assoc, List.singleton_append]

theorem plain_collapse {above : List String} (plain : Plain above) (names : List String) :
    Plain (collapse true above names) := by
  induction names generalizing above with
  | nil => exact fun name member => plain name (List.mem_reverse.1 member)
  | cons name rest ih =>
    by_cases dots : name = ".."
    · subst dots
      cases above with
      | nil =>
        rw [collapse_top_dots]
        exact ih plain
      | cons last others =>
        obtain ⟨named, plain⟩ := List.forall_mem_cons.1 plain
        rw [collapse_cons_dots named]
        exact ih plain
    · rw [collapse_cons_of_ne dots]
      exact ih (List.forall_mem_cons.2 ⟨dots, plain⟩)

variable {path : Path}

theorem isAbsolute_join {base : Path} (absolute : base.isAbsolute = true) (path : Path) :
    (base.join path).isAbsolute = true := by
  rw [join]
  split
  · next own => exact own
  · exact absolute

theorem isAbsolute_absolute (here : List String) (path : Path) : (path.absolute here).isAbsolute = true :=
  isAbsolute_join rfl path

theorem plain_normal (absolute : path.isAbsolute = true) : Plain path.normal.names := by
  rw [normal, absolute]
  exact plain_collapse plain_nil path.names

theorem normal_of_plain (plain : Plain path.names) : path.normal = path := by
  rw [normal, collapse_of_plain plain]
  rfl

theorem plain_resolve (here : List String) (path : Path) : Plain (path.resolve here) :=
  plain_normal (isAbsolute_absolute here path)

end Path

/-! ## Following names -/

namespace Store

variable {store : Store}

/-- Where following names succeeds, it reaches the place that the names spell. -/
theorem collapse_of_walk {names : List String} {place target : Place} (plain : Plain place)
    (walks : store.walk place names = .ok target) : Path.collapse true place.reverse names = target := by
  induction names generalizing place with
  | nil =>
    cases walks
    exact List.reverse_reverse _
  | cons name rest ih =>
    rw [walk] at walks
    split at walks
    · cases walks
    · cases walks
    · by_cases dots : name = ".."
      · subst dots
        rw [if_pos rfl] at walks
        have above := ih plain.dropLast walks
        rcases List.eq_nil_or_concat place with rfl | ⟨front, last, rfl⟩
        · exact (Path.collapse_top_dots rest).trans above
        · rw [List.concat_eq_append, List.dropLast_concat] at above
          have named : last ≠ ".." := plain last (by simp)
          rw [List.concat_eq_append, List.reverse_append, List.reverse_singleton, List.singleton_append,
            Path.collapse_cons_dots named, above]
      · rw [if_neg dots] at walks
        have below : Plain (place ++ [name]) :=
          List.forall_mem_append.2 ⟨plain, List.forall_mem_singleton.2 dots⟩
        rw [Path.collapse_cons_of_ne dots, ← ih below walks, List.reverse_append]
        rfl

/-- The normal form of a path from the top names the place that the path leads to. -/
theorem names_normal_of_placeOf {path : Path} {target : Place} (absolute : path.isAbsolute = true)
    (leads : store.placeOf path = .ok target) : path.normal.names = target := by
  rw [placeOf, if_pos absolute] at leads
  rw [Path.normal, absolute]
  exact collapse_of_walk plain_nil leads

/-- All paths that lead to a place have one meaning. -/
theorem resolve_of_placeOf {here : List String} {path : Path} {target : Place}
    (leads : store.placeOf (path.absolute here) = .ok target) : path.resolve here = target :=
  names_normal_of_placeOf (Path.isAbsolute_absolute here path) leads

/-- Following the names of a place, with directories all the way, reaches it. -/
theorem walk_of_directories {place names : List String} (plain : Plain names)
    (directories : ∀ front, front <+: names → front ≠ names → store.node? (place ++ front) = some .directory) :
    store.walk place names = .ok (place ++ names) := by
  induction names generalizing place with
  | nil => rw [walk, List.append_nil]
  | cons name rest ih =>
    obtain ⟨named, plain⟩ := List.forall_mem_cons.1 plain
    have here := directories [] List.nil_prefix (List.cons_ne_nil name rest).symm
    rw [List.append_nil] at here
    rw [walk, here]
    dsimp only
    rw [if_neg named, ih plain, List.append_assoc, List.singleton_append]
    intro front begins strict
    rw [List.append_assoc, List.singleton_append]
    exact directories (name :: front) (List.cons_prefix_cons.2 ⟨rfl, begins⟩) fun same => strict (List.cons.inj same).2

/-- There are directories all the way to what following names reaches. -/
theorem directories_of_walk {names : List String} {place target : Place} (walks : store.walk place names = .ok target)
    (directories : ∀ front, front <+: place → front ≠ place → store.node? front = some .directory) :
    ∀ front, front <+: target → front ≠ target → store.node? front = some .directory := by
  induction names generalizing place with
  | nil =>
    cases walks
    exact directories
  | cons name rest ih =>
    rw [walk] at walks
    split at walks
    · cases walks
    · cases walks
    · next here =>
      refine ih walks fun front begins strict => ?_
      split at begins
      · next dots =>
        rw [if_pos dots] at strict
        refine directories front (begins.trans (List.dropLast_prefix place)) fun same => ?_
        subst same
        exact strict (begins.eq_of_length_le (List.dropLast_prefix front).length_le)
      · next named =>
        rw [if_neg named] at strict
        rcases List.prefix_concat_iff.1 begins with whole | begins
        · exact absurd whole strict
        · by_cases same : front = place
          · rwa [same]
          · exact directories front begins same

/-- Where a path from the top leads somewhere, its normal form leads there too. -/
theorem placeOf_normal {path : Path} {target : Place} (absolute : path.isAbsolute = true)
    (leads : store.placeOf path = .ok target) : store.placeOf path.normal = .ok target := by
  have names := names_normal_of_placeOf absolute leads
  have top : path.normal.isAbsolute = true := absolute
  rw [placeOf, if_pos absolute] at leads
  have directories := directories_of_walk leads fun front begins strict => absurd (List.prefix_nil.1 begins) strict
  rw [placeOf, if_pos top, names]
  exact walk_of_directories (names ▸ Path.plain_normal absolute) directories

end Store

end LayeredConfig.File
