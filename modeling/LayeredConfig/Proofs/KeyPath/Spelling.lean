import LayeredConfig.KeyPath.Parse

/-!
# How paths are spelled

A `Spelling` is a written path: components with a dot between them, each a row of glyphs, each glyph a character by itself or
any character behind a backslash. The texts of spellings are the texts that `parse` reads, and it reads them as the
characters without their backslashes (`parse_eq_ok_iff`). No text has two spellings (`Spelling.eq_of_text_eq`).
-/

namespace LayeredConfig.KeyPath

/-- A character of a component as it is written. -/
inductive Glyph where
  /-- A character that stands for itself. -/
  | bare (c : Char) (ordinary : c ≠ '\\' ∧ c ≠ '.')
  /-- Any character behind a backslash. -/
  | escaped (c : Char)

namespace Glyph

/-- The character that is meant. -/
def char : Glyph → Char
  | bare c _ => c
  | escaped c => c

/-- The characters that are written. -/
def text : Glyph → List Char
  | bare c _ => [c]
  | escaped c => ['\\', c]

/-- The glyph of a character with a backslash where one has to be. -/
def ofChar (c : Char) : Glyph :=
  if ordinary : c ≠ '\\' ∧ c ≠ '.' then bare c ordinary else escaped c

/-- The glyph without its backslash if the character behind it stands for itself anyway. -/
def pared : Glyph → Glyph
  | bare c ordinary => bare c ordinary
  | escaped c => if ordinary : c ≠ '\\' ∧ c ≠ '.' then bare c ordinary else escaped c

@[simp] theorem char_ofChar (c : Char) : (ofChar c).char = c := by
  unfold ofChar
  split <;> rfl

theorem ofChar_char (glyph : Glyph) : ofChar glyph.char = glyph.pared := by
  cases glyph with
  | bare c ordinary => exact dif_pos ordinary
  | escaped c => rfl

end Glyph

/-- A written path: its components, one or more, each of one glyph or more. -/
@[ext] structure Spelling where
  components : List (List Glyph)
  any : components ≠ []
  filled : ∀ component ∈ components, component ≠ []

namespace Spelling

/-- The characters that are written, a dot between the components. -/
def chars (spelling : Spelling) : List Char :=
  ['.'].intercalate (spelling.components.map fun component => component.flatMap Glyph.text)

/-- The text that is written. -/
def text (spelling : Spelling) : String :=
  String.ofList spelling.chars

/-- The path that is meant: the components without their backslashes. -/
def path (spelling : Spelling) : KeyPath :=
  spelling.components.map fun component => String.ofList (component.map Glyph.char)

/-- The spelling without the backslashes before characters that need none. -/
def pared (spelling : Spelling) : Spelling where
  components := spelling.components.map fun component => component.map Glyph.pared
  any := by simpa using spelling.any
  filled := by
    intro component member
    obtain ⟨other, inside, rfl⟩ := List.mem_map.1 member
    simpa using spelling.filled other inside

end Spelling

/-- Components behind the first one, each with the dot before it. -/
def dotted (components : List (List Glyph)) : List Char :=
  components.flatMap fun component => '.' :: component.flatMap Glyph.text

/-- No glyph begins here. -/
def EndsGlyphs (rest : List Char) : Prop :=
  ∀ (glyph : Glyph) (more : List Char), rest ≠ glyph.text ++ more

variable {expression : String} {current rest rest' : List Char} {glyph other : Glyph} {left right : List Glyph}
  {found : List (List Char)} {components others : List (List Glyph)}

theorem intercalate_dot (first : List Char) (others : List (List Char)) :
    ['.'].intercalate (first :: others) = first ++ others.flatMap fun other => '.' :: other := by
  induction others generalizing first with
  | nil => simp
  | cons next others ih => rw [List.intercalate_cons_cons, ih, List.flatMap_cons]; simp

/-- A spelling is its first component and the others with their dots. -/
theorem Spelling.exists_first (spelling : Spelling) :
    ∃ first others, spelling.components = first :: others ∧ spelling.chars = first.flatMap Glyph.text ++ dotted others
      ∧ spelling.path = (first :: others).map fun component => String.ofList (component.map Glyph.char) := by
  obtain ⟨first, others, same⟩ := List.exists_cons_of_ne_nil spelling.any
  refine ⟨first, others, same, ?_, by rw [path, same]⟩
  rw [chars, same, List.map_cons, intercalate_dot, dotted, List.flatMap_map]

/-! ## Reading glyphs -/

theorem componentsFrom_glyph (current rest : List Char) (glyph : Glyph) :
    componentsFrom expression current (glyph.text ++ rest) = componentsFrom expression (glyph.char :: current) rest := by
  cases glyph with
  | escaped c => rfl
  | bare c ordinary =>
    show componentsFrom expression current (c :: rest) = componentsFrom expression (c :: current) rest
    rw [componentsFrom]
    · exact fun same _ => ordinary.1 same
    · exact fun _ _ same _ => ordinary.1 same
    · exact ordinary.2

theorem componentsFrom_glyphs (current rest : List Char) (glyphs : List Glyph) :
    componentsFrom expression current (glyphs.flatMap Glyph.text ++ rest)
      = componentsFrom expression ((glyphs.map Glyph.char).reverse ++ current) rest := by
  induction glyphs generalizing current with
  | nil => rfl
  | cons glyph glyphs ih =>
    rw [List.flatMap_cons, List.append_assoc, componentsFrom_glyph, ih, List.map_cons, List.reverse_cons,
      List.append_assoc, List.singleton_append]

/-- Components that are not empty are read as they are spelled. -/
theorem componentsFrom_dotted {first : List Glyph} (filled : ∀ component ∈ first :: others, component ≠ []) :
    componentsFrom expression [] (first.flatMap Glyph.text ++ dotted others)
      = .ok ((first :: others).map (List.map Glyph.char)) := by
  rw [componentsFrom_glyphs, List.append_nil]
  have some : ¬(first.map Glyph.char).reverse.isEmpty = true := by
    simpa using filled first List.mem_cons_self
  induction others generalizing first with
  | nil =>
    rw [dotted, List.flatMap_nil, componentsFrom, if_neg some, List.reverse_reverse]
    rfl
  | cons next others ih =>
    have behind := ih (fun component member => filled component (List.mem_cons_of_mem _ member))
      (by simpa using filled next (by simp))
    rw [dotted, List.flatMap_cons, ← dotted, List.cons_append, componentsFrom, if_neg some, List.reverse_reverse,
      componentsFrom_glyphs, List.append_nil, behind]
    rfl

/-- The rest of an expression when `current`, reversed, stands since the last dot: glyphs that go on with this component, and
further components; and what is found there. -/
inductive Continues (current : List Char) : List Char → List (List Char) → Prop
  | intro {first : List Glyph} {others : List (List Glyph)} (some : current.reverse ++ first.map Glyph.char ≠ [])
      (filled : ∀ component ∈ others, component ≠ []) :
      Continues current (first.flatMap Glyph.text ++ dotted others)
        ((current.reverse ++ first.map Glyph.char) :: others.map (List.map Glyph.char))

theorem Continues.cons (glyph : Glyph) (behind : Continues (glyph.char :: current) rest found) :
    Continues current (glyph.text ++ rest) found := by
  cases behind with
  | @intro first others some filled =>
    rw [List.reverse_cons, List.append_assoc, List.singleton_append, ← List.map_cons] at some ⊢
    rw [← List.append_assoc, ← List.flatMap_cons]
    exact .intro some filled

theorem Continues.dot (some : current ≠ []) (behind : Continues [] rest found) :
    Continues current ('.' :: rest) (current.reverse :: found) := by
  cases behind with
  | @intro first others begun filled =>
    have whole : ∀ component ∈ first :: others, component ≠ [] :=
      List.forall_mem_cons.2 ⟨by simpa using begun, filled⟩
    have continues := @Continues.intro current [] _ (by simpa using some) whole
    simpa [dotted] using continues

/-- What is read is spelled. -/
theorem continues_of_componentsFrom (reads : componentsFrom expression current rest = .ok found) :
    Continues current rest found := by
  fun_induction componentsFrom expression current rest generalizing found with
  | case1 | case3 | case5 => cases reads
  | case2 current some =>
    cases reads
    have continues := @Continues.intro current [] [] (by simpa using some) (List.forall_mem_nil _)
    simpa [dotted] using continues
  | case4 current c rest ih => exact (ih reads).cons (.escaped c)
  | case6 current rest some ih =>
    cases below : componentsFrom expression [] rest with
    | error e =>
      rw [below] at reads
      cases reads
    | ok inner =>
      rw [below] at reads
      cases reads
      exact (ih below).dot (by simpa using some)
  | case7 current c rest noEnd noEscape noDot ih =>
    have ordinary : c ≠ '\\' ∧ c ≠ '.' := by
      refine ⟨?_, noDot⟩
      rintro rfl
      cases rest with
      | nil => exact noEnd rfl rfl
      | cons next more => exact noEscape next more rfl rfl
    exact (ih reads).cons (.bare c ordinary)

/-! ## Texts and spellings -/

theorem Spelling.toList_text (spelling : Spelling) : spelling.text.toList = spelling.chars :=
  String.toList_ofList

/-- Reading a spelled path gives the characters that are meant. -/
theorem parse_text (spelling : Spelling) : parse spelling.text = .ok spelling.path := by
  obtain ⟨first, others, same, chars, path⟩ := spelling.exists_first
  have filled := spelling.filled
  rw [same] at filled
  have written : ¬spelling.text.isEmpty = true := by
    rw [String.isEmpty_iff, ← String.toList_eq_nil_iff, spelling.toList_text, chars]
    obtain ⟨glyph, glyphs, rfl⟩ := List.exists_cons_of_ne_nil (filled first List.mem_cons_self)
    cases glyph <;> exact List.cons_ne_nil _ _
  rw [parse, if_neg written, spelling.toList_text, chars, componentsFrom_dotted filled, path]
  simp [Except.map]

/-- A path is read from the texts that spell it, and from no other. -/
theorem parse_eq_ok_iff {path : KeyPath} :
    parse expression = .ok path ↔ ∃ spelling : Spelling, spelling.text = expression ∧ spelling.path = path := by
  constructor
  · intro reads
    rw [parse] at reads
    split at reads
    · cases reads
    · cases below : componentsFrom expression [] expression.toList with
      | error e =>
        rw [below] at reads
        cases reads
      | ok found =>
        rw [below] at reads
        cases reads
        have continues := continues_of_componentsFrom below
        generalize whole : expression.toList = rest at continues
        cases continues with
        | @intro first others some filled =>
          have all : ∀ component ∈ first :: others, component ≠ [] :=
            List.forall_mem_cons.2 ⟨by simpa using some, filled⟩
          refine ⟨⟨first :: others, List.cons_ne_nil _ _, all⟩, ?_, ?_⟩
          · rw [Spelling.text, Spelling.chars, List.map_cons, intercalate_dot, List.flatMap_map, ← dotted, ← whole,
              String.ofList_toList]
          · simp [Spelling.path]
  · rintro ⟨spelling, rfl, rfl⟩
    exact parse_text spelling

/-! ## One spelling for a text -/

theorem endsGlyphs_dotted (components : List (List Glyph)) : EndsGlyphs (dotted components) := by
  intro glyph more same
  cases components with
  | nil => cases glyph <;> cases same
  | cons component components =>
    cases glyph with
    | bare c ordinary => exact ordinary.2 (List.cons.inj same).1.symm
    | escaped c => exact absurd (List.cons.inj same).1 (by decide)

theorem glyph_unique (same : glyph.text ++ rest = other.text ++ rest') : glyph = other ∧ rest = rest' := by
  cases glyph with
  | bare c ordinary =>
    cases other with
    | bare d _ =>
      cases same
      exact ⟨rfl, rfl⟩
    | escaped d => exact absurd (List.cons.inj same).1 ordinary.1
  | escaped c =>
    cases other with
    | bare d ordinary => exact absurd (List.cons.inj same).1.symm ordinary.1
    | escaped d =>
      cases same
      exact ⟨rfl, rfl⟩

theorem glyphs_unique (ends : EndsGlyphs rest) (ends' : EndsGlyphs rest')
    (same : left.flatMap Glyph.text ++ rest = right.flatMap Glyph.text ++ rest') : left = right ∧ rest = rest' := by
  induction left generalizing right with
  | nil =>
    cases right with
    | nil => exact ⟨rfl, same⟩
    | cons glyph right =>
      rw [List.flatMap_cons, List.append_assoc] at same
      exact absurd same (ends glyph _)
  | cons glyph left ih =>
    cases right with
    | nil =>
      rw [List.flatMap_cons, List.append_assoc] at same
      exact absurd same.symm (ends' glyph _)
    | cons other right =>
      rw [List.flatMap_cons, List.flatMap_cons, List.append_assoc, List.append_assoc] at same
      obtain ⟨rfl, inner⟩ := glyph_unique same
      obtain ⟨rfl, behind⟩ := ih inner
      exact ⟨rfl, behind⟩

theorem dotted_unique (same : dotted components = dotted others) : components = others := by
  induction components generalizing others with
  | nil =>
    cases others with
    | nil => rfl
    | cons => cases same
  | cons component components ih =>
    cases others with
    | nil => cases same
    | cons other others =>
      obtain ⟨rfl, behind⟩ := glyphs_unique (endsGlyphs_dotted _) (endsGlyphs_dotted _) (List.cons.inj same).2
      rw [ih behind]

/-- No text has two spellings. -/
theorem Spelling.eq_of_text_eq {spelling other : Spelling} (same : spelling.text = other.text) : spelling = other := by
  obtain ⟨first, others, whole, chars, -⟩ := spelling.exists_first
  obtain ⟨first', others', whole', chars', -⟩ := other.exists_first
  have equal : spelling.chars = other.chars := by rw [← toList_text, same, toList_text]
  rw [chars, chars'] at equal
  obtain ⟨rfl, behind⟩ := glyphs_unique (endsGlyphs_dotted _) (endsGlyphs_dotted _) equal
  rw [dotted_unique behind] at whole
  exact Spelling.ext (whole.trans whole'.symm)

end LayeredConfig.KeyPath
