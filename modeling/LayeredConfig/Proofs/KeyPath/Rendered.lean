import LayeredConfig.Proofs.KeyPath.Spelling

/-!
# Reading a written path back

The written form of a path is the spelling of it that has no backslash too many (`Spelling.ofPath`), so that it is read back
(`parse_render`), and writing what was read from a text takes the other backslashes out of it (`render_path`).
-/

namespace LayeredConfig.KeyPath

variable {path : KeyPath}

/-- Writing a component adds no characters but backslashes. -/
theorem mem_of_mem_escape {component : List Char} {c : Char} (member : c ∈ escape component) :
    c = '\\' ∨ c ∈ component := by
  obtain ⟨d, inside, member⟩ := List.mem_flatMap.1 member
  unfold escapeChar at member
  split at member
  · rcases List.mem_cons.1 member with backslash | same
    · exact Or.inl backslash
    · exact Or.inr (List.mem_singleton.1 same ▸ inside)
  · exact Or.inr (List.mem_singleton.1 member ▸ inside)

theorem renderChars_cons (component : String) (path : KeyPath) :
    renderChars (component :: path) = escape component.toList ++ path.flatMap fun next => '.' :: escape next.toList := by
  rw [renderChars, List.map_cons, intercalate_dot, List.flatMap_map]

/-- The written form of a path begins as its first component does, or with a backslash. -/
theorem exists_head_renderChars {component : String} (path : KeyPath) (nonempty : component ≠ "") :
    ∃ c rest, renderChars (component :: path) = c :: rest ∧ (c = '\\' ∨ component.toList.head? = some c) := by
  rw [renderChars_cons]
  cases chars : component.toList with
  | nil => exact absurd (String.toList_eq_nil_iff.1 chars) nonempty
  | cons c rest =>
    rw [escape, List.flatMap_cons, escapeChar]
    split
    · exact ⟨_, _, rfl, Or.inl rfl⟩
    · exact ⟨_, _, rfl, Or.inr rfl⟩

/-- Writing a path adds no characters but backslashes and dots. -/
theorem mem_of_mem_renderChars {c : Char} (member : c ∈ renderChars path) :
    c = '\\' ∨ c = '.' ∨ ∃ component ∈ path, c ∈ component.toList := by
  have escaped (component : String) (inside : component ∈ path) (member : c ∈ escape component.toList) :
      c = '\\' ∨ c = '.' ∨ ∃ component ∈ path, c ∈ component.toList := by
    rcases mem_of_mem_escape member with backslash | member
    · exact Or.inl backslash
    · exact Or.inr (Or.inr ⟨component, inside, member⟩)
  cases path with
  | nil => exact absurd member List.not_mem_nil
  | cons component path =>
    rw [renderChars_cons] at member
    rcases List.mem_append.1 member with member | member
    · exact escaped component List.mem_cons_self member
    · obtain ⟨next, inside, member⟩ := List.mem_flatMap.1 member
      rcases List.mem_cons.1 member with dot | member
      · exact Or.inr (Or.inl dot)
      · exact escaped next (List.mem_cons_of_mem _ inside) member

theorem toList_render (some : path ≠ []) : path.render.toList = path.renderChars := by
  cases path with
  | nil => exact absurd rfl some
  | cons component path => exact String.toList_ofList

/-! ## The spelling of a path -/

theorem text_ofChar (c : Char) : (Glyph.ofChar c).text = escapeChar c := by
  by_cases special : c = '\\' ∨ c = '.'
  · have noBare : ¬(c ≠ '\\' ∧ c ≠ '.') := fun ordinary => special.elim ordinary.1 ordinary.2
    rw [Glyph.ofChar, dif_neg noBare, escapeChar, if_pos special]
    rfl
  · rw [Glyph.ofChar, dif_pos (not_or.1 special), escapeChar, if_neg special]
    rfl

/-- The spelling of a path with the backslashes that have to be. -/
def Spelling.ofPath (path : KeyPath) (some : path ≠ []) (nonempty : ∀ component ∈ path, component ≠ "") : Spelling where
  components := path.map fun component => component.toList.map Glyph.ofChar
  any := by simpa using some
  filled := by
    intro component member
    obtain ⟨other, inside, rfl⟩ := List.mem_map.1 member
    simpa using nonempty other inside

section

variable (some : path ≠ []) (nonempty : ∀ component ∈ path, component ≠ "")

theorem path_ofPath : (Spelling.ofPath path some nonempty).path = path := by
  simp [Spelling.ofPath, Spelling.path, Function.comp_def]

theorem text_ofPath : (Spelling.ofPath path some nonempty).text = path.render := by
  have chars : (Spelling.ofPath path some nonempty).chars = path.renderChars := by
    simp only [Spelling.ofPath, Spelling.chars, List.map_map, Function.comp_def, List.flatMap_map, text_ofChar]
    rfl
  rw [Spelling.text, chars, ← toList_render some, String.ofList_toList]

/-- A path is read back from its written form. -/
theorem parse_render (some : path ≠ []) (nonempty : ∀ component ∈ path, component ≠ "") :
    parse path.render = .ok path := by
  rw [← text_ofPath some nonempty, parse_text, path_ofPath]

end

/-! ## Writing what was read -/

theorem Spelling.path_ne_nil (spelling : Spelling) : spelling.path ≠ [] := by
  simpa [path] using spelling.any

/-- No component that is read is empty. -/
theorem Spelling.nonempty_path (spelling : Spelling) : ∀ component ∈ spelling.path, component ≠ "" := by
  intro component member
  obtain ⟨glyphs, inside, rfl⟩ := List.mem_map.1 member
  simpa using spelling.filled glyphs inside

/-- A path is written as its spelling without the backslashes that need not be. -/
theorem render_path (spelling : Spelling) : spelling.path.render = spelling.pared.text := by
  rw [← text_ofPath spelling.path_ne_nil spelling.nonempty_path]
  congr 1
  ext1
  simp [Spelling.ofPath, Spelling.path, Spelling.pared, Function.comp_def, Glyph.ofChar_char]

/-- A text with a backslash before each of its characters of one kind. -/
def guarded (c : Char) (text : List Char) : List Char :=
  text.flatMap fun d => if d = c then ['\\', d] else [d]

/-- A component is written in two passes, of which the one for the backslashes is the first. -/
theorem escape_eq_guarded (component : List Char) : escape component = guarded '.' (guarded '\\' component) := by
  rw [escape, guarded, guarded, List.flatMap_assoc]
  congr 1
  funext c
  by_cases backslash : c = '\\'
  · subst backslash
    rfl
  · by_cases dot : c = '.'
    · subst dot
      rfl
    · simp [escapeChar, backslash, dot]

/-- The grammar of written paths. A text is read as a path if and only if it spells that path, and is refused otherwise; it
has one spelling, none of the components is empty, and the path is written again as this text without the backslashes that
need not be. Every path without empty components is read back from its written form, for which the backslashes of each
component are guarded first and its dots after them. -/
theorem written_grammar (expression : String) (path : KeyPath) :
    (parse expression = .ok path ↔ ∃ spelling : Spelling, spelling.text = expression ∧ spelling.path = path)
    ∧ (∀ error, parse expression = .error error → error.category = .parse)
    ∧ (∀ spelling : Spelling, spelling.text = expression → (∀ other : Spelling, other.text = expression → other = spelling)
        ∧ (∀ component ∈ spelling.path, component ≠ "") ∧ spelling.path.render = spelling.pared.text)
    ∧ (path ≠ [] → path.render.toList
        = ['.'].intercalate (path.map fun component => guarded '.' (guarded '\\' component.toList)))
    ∧ (path ≠ [] → (∀ component ∈ path, component ≠ "") → parse path.render = .ok path) := by
  refine ⟨parse_eq_ok_iff, fun error => category_of_parse, fun spelling spells => ⟨fun other spells' => ?_,
    spelling.nonempty_path, render_path spelling⟩, fun some => ?_, parse_render⟩
  · exact Spelling.eq_of_text_eq (spells'.trans spells.symm)
  · rw [toList_render some, renderChars]
    simp only [escape_eq_guarded]

/-- A path whose second component is written with a backslash that need not be. -/
def paddedSpelling : Spelling where
  components := [[.ofChar 'a', .escaped '.', .escaped '\\'], [.escaped 'b', .ofChar 'c']]
  any := by decide
  filled := by simp

theorem written_grammar_paddedSpelling :
    parse "a\\.\\\\.\\bc" = .ok ["a.\\", "bc"] ∧ KeyPath.render ["a.\\", "bc"] = "a\\.\\\\.bc"
      ∧ parse "a\\.\\\\.bc" = .ok ["a.\\", "bc"] := by
  have spells : paddedSpelling.text = "a\\.\\\\.\\bc" := by decide
  have means : paddedSpelling.path = ["a.\\", "bc"] := by decide
  obtain ⟨reads, -, written, -, back⟩ := written_grammar "a\\.\\\\.\\bc" ["a.\\", "bc"]
  have render : KeyPath.render ["a.\\", "bc"] = "a\\.\\\\.bc" := by
    rw [← means, (written paddedSpelling spells).2.2]
    decide
  refine ⟨reads.2 ⟨paddedSpelling, spells, means⟩, render, ?_⟩
  rw [← render]
  exact back (by decide) (by decide)

end LayeredConfig.KeyPath
