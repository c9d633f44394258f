import LayeredConfig.Proofs.Compose.Equation
import LayeredConfig.Proofs.Tree.Lens
import LayeredConfig.Proofs.Yaml.Failures

/-!
# Which steps refuse a file for including itself

Only loads do. The other steps of a composition fail with errors of other kinds: reading a content, reading an entry and
placing the tree of an included file (`NoRefusal`).
-/

namespace LayeredConfig.Compose

/-- An outcome that is no refusal of a file that includes itself. -/
def NoRefusal {α : Type} (outcome : Except Error α) : Prop :=
  ∀ error, outcome = .error error → error.category ≠ .includeCycle

section

variable {α β : Type} {error : Error}

theorem noRefusal_ok (a : α) : NoRefusal (.ok a : Except Error α) :=
  nofun

theorem noRefusal_error (kind : error.category ≠ .includeCycle) : NoRefusal (.error error : Except Error α) := by
  intro error same
  cases same
  exact kind

theorem NoRefusal.bind {outcome : Except Error α} {next : α → Except Error β} (first : NoRefusal outcome)
    (rest : ∀ a, NoRefusal (next a)) : NoRefusal (outcome >>= next) := by
  intro error fails
  rcases Outcome.bind_eq_error.1 fails with fails | ⟨a, -, fails⟩
  · exact first error fails
  · exact rest a error fails

end

/-- Reading a content fails with a refusal of its text or by what exceeds the reader. -/
theorem noRefusal_readContent (place : File.Place) (content : ByteArray) : NoRefusal (readContent place content) := by
  rw [readContent]
  split
  · next text _ =>
    intro error fails kind
    have explained := Yaml.explained_read (placeText place) text
    rw [fails] at explained
    rcases explained with refused | exceeds
    · cases refused.symm.trans kind
    · have other := Yaml.isConfiguration_of_exceeds exceeds
      rw [kind] at other
      cases other
  · exact noRefusal_error (by decide)

theorem noRefusal_fileOf (base path : File.Path) : NoRefusal (Include.fileOf base path) := by
  rw [Include.fileOf]
  split
  · exact noRefusal_ok _
  · exact noRefusal_error nofun

theorem noRefusal_keyPath (expression : String) : NoRefusal (KeyPath.parse expression) :=
  fun _ fails kind => nomatch (KeyPath.category_of_parse fails).symm.trans kind

theorem noRefusal_parse (base : File.Path) (item : Tree) : NoRefusal (Include.parse base item) := by
  unfold Include.parse
  split
  · dsimp only
    split
    · exact noRefusal_error nofun
    · exact (noRefusal_fileOf base _).bind fun _ => noRefusal_ok _
  · exact (noRefusal_keyPath _).bind fun _ => (noRefusal_fileOf base _).bind fun _ => noRefusal_ok _
  · exact noRefusal_error nofun
  · exact noRefusal_error nofun
  · exact noRefusal_error nofun

theorem noRefusal_assign (tree child : Tree) (path : KeyPath) (add : Bool) :
    NoRefusal (tree.assign path child add).outcome := by
  intro error fails kind
  rw [Attempt.outcome] at fails
  split at fails
  · cases fails
  · next failure failed =>
    cases fails
    rcases Tree.category_of_assign failed with other | other | other
    all_goals exact nomatch other.symm.trans kind

theorem noRefusal_place (composed child : Tree) (target : Option KeyPath) :
    NoRefusal (Compose.place composed child target) := by
  rw [Compose.place.eq_def]
  split
  · exact noRefusal_ok _
  · split
    · exact noRefusal_ok _
    · exact noRefusal_assign _ _ _ _

end LayeredConfig.Compose
