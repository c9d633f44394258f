import LayeredConfig.Proofs.File.Paths

/-!
# Written paths

A path is read back from its text, as long as its names are such as can be written (`CanBeWritten`): `ofText_text`. All
names that are read from a text are, and no way of putting paths together makes others.
-/

namespace LayeredConfig.File

/-- A name that a written path can hold: neither empty nor a single dot, and without a slash. -/
def CanBeWritten (name : String) : Prop :=
  Path.isName name.toList = true ∧ '/' ∉ name.toList

instance (name : String) : Decidable (CanBeWritten name) :=
  inferInstanceAs (Decidable (_ ∧ _))

namespace Path

/-! ## Reading names -/

theorem splitSlashes_cons {c : Char} (other : c ≠ '/') {rest part : List Char} {parts : List (List Char)}
    (split : splitSlashes rest = part :: parts) : splitSlashes (c :: rest) = (c :: part) :: parts := by
  rw [splitSlashes, split]
  exact fun same => absurd same other

theorem splitSlashes_of_not_mem {part : List Char} (free : '/' ∉ part) : splitSlashes part = [part] := by
  induction part with
  | nil => rfl
  | cons c rest ih =>
    rw [List.mem_cons, not_or] at free
    exact splitSlashes_cons (Ne.symm free.1) (ih free.2)

theorem splitSlashes_append {part : List Char} (free : '/' ∉ part) (rest : List Char) :
    splitSlashes (part ++ '/' :: rest) = part :: splitSlashes rest := by
  induction part with
  | nil => rfl
  | cons c part ih =>
    rw [List.mem_cons, not_or] at free
    exact splitSlashes_cons (Ne.symm free.1) (ih free.2)

/-- Parts with slashes between them are the parts that the whole is split into. -/
theorem splitSlashes_intercalate {names : List String} (some : names ≠ []) (free : ∀ name ∈ names, '/' ∉ name.toList) :
    splitSlashes ("/".intercalate names).toList = names.map String.toList := by
  induction names with
  | nil => exact absurd rfl some
  | cons name rest ih =>
    rw [List.forall_mem_cons] at free
    cases rest with
    | nil =>
      rw [String.intercalate_singleton]
      exact splitSlashes_of_not_mem free.1
    | cons next rest =>
      rw [String.intercalate_cons_cons, String.toList_append, String.toList_append, List.append_assoc, List.map_cons,
        ← ih (List.cons_ne_nil _ _) free.2]
      exact splitSlashes_append free.1 _

theorem not_mem_of_mem_splitSlashes {text part : List Char} (member : part ∈ splitSlashes text) : '/' ∉ part := by
  induction text generalizing part with
  | nil =>
    rw [List.mem_singleton.1 member]
    exact List.not_mem_nil
  | cons c rest ih =>
    by_cases slash : c = '/'
    · subst slash
      rcases List.mem_cons.1 member with rfl | member
      · exact List.not_mem_nil
      · exact ih member
    · cases split : splitSlashes rest with
      | nil =>
        rw [splitSlashes, split] at member
        · rw [List.mem_singleton.1 member]
          exact List.not_mem_cons_of_ne_of_not_mem (Ne.symm slash) List.not_mem_nil
        · exact slash
      | cons first parts =>
        rw [splitSlashes_cons slash split] at member
        rw [split, List.forall_mem_cons] at ih
        rcases List.mem_cons.1 member with rfl | member
        · exact List.not_mem_cons_of_ne_of_not_mem (Ne.symm slash) ih.1
        · exact ih.2 part member

/-- The names of a path that was read from a text can be written. -/
theorem canBeWritten_ofText (text : String) : ∀ name ∈ (ofText text).names, CanBeWritten name := by
  intro name member
  obtain ⟨part, kept, rfl⟩ := List.mem_map.1 member
  obtain ⟨split, named⟩ := List.mem_filter.1 kept
  rw [CanBeWritten, String.toList_ofList]
  exact ⟨named, not_mem_of_mem_splitSlashes split⟩

/-! ## Writing a path -/

variable {path : Path} {names : List String}

theorem names_of_intercalate (written : ∀ name ∈ names, CanBeWritten name) :
    ((splitSlashes ("/".intercalate names).toList).filter isName).map String.ofList = names := by
  by_cases none : names = []
  · subst none
    rw [String.intercalate_nil]
    rfl
  · have kept : ∀ part ∈ names.map String.toList, isName part = true :=
      List.forall_mem_map.2 fun name member => (written name member).1
    rw [splitSlashes_intercalate none fun name member => (written name member).2, List.filter_eq_self.2 kept,
      List.map_map]
    exact List.map_id'' (fun name => String.ofList_toList) names

theorem head_intercalate (written : ∀ name ∈ names, CanBeWritten name) :
    ("/".intercalate names).toList.head? ≠ some '/' := by
  cases names with
  | nil =>
    rw [String.intercalate_nil]
    exact nofun
  | cons name rest =>
    obtain ⟨named, free⟩ := written name List.mem_cons_self
    have begins : ∃ more, ("/".intercalate (name :: rest)).toList = name.toList ++ more := by
      cases rest with
      | nil => exact ⟨[], by rw [String.intercalate_singleton, List.append_nil]⟩
      | cons next rest =>
        rw [String.intercalate_cons_cons, String.append_assoc, String.toList_append]
        exact ⟨_, rfl⟩
    obtain ⟨more, whole⟩ := begins
    rw [whole]
    cases chars : name.toList with
    | nil =>
      rw [chars] at named
      cases named
    | cons c others =>
      rw [chars, List.mem_cons, not_or] at free
      exact fun same => free.1 (Option.some.inj same).symm

theorem toList_text (filled : path ≠ ⟨.here, []⟩) :
    path.text.toList = path.root.text.toList ++ ("/".intercalate path.names).toList := by
  obtain ⟨root, names⟩ := path
  cases root with
  | here =>
    cases names with
    | nil => exact absurd rfl filled
    | cons => exact String.toList_append
  | top | doubleTop => exact String.toList_append

/-- A path is what its text is read as. -/
theorem ofText_text (written : ∀ name ∈ path.names, CanBeWritten name) : ofText path.text = path := by
  by_cases bare : path = ⟨.here, []⟩
  · subst bare
    decide
  rw [ofText, toList_text bare]
  obtain ⟨root, names⟩ := path
  have named := names_of_intercalate written
  have head := head_intercalate written
  dsimp only at *
  generalize ("/".intercalate names).toList = chars at *
  have slashes : Root.here.text.toList = [] ∧ Root.top.text.toList = ['/'] ∧ Root.doubleTop.text.toList = ['/', '/'] := by
    decide
  -- what stands behind the root is empty or begins with no slash, so the root is read as it was written
  have rest : chars = [] ∨ ∃ c more, chars = c :: more ∧ c ≠ '/' := by
    cases chars with
    | nil => exact Or.inl rfl
    | cons c more => exact Or.inr ⟨c, more, rfl, fun same => head (congrArg some same)⟩
  cases root with
  | here =>
    rw [slashes.1, Path.mk.injEq]
    refine ⟨?_, named⟩
    rcases rest with rfl | ⟨c, more, rfl, other⟩
    · rfl
    · simp [rootOf, other]
  | top =>
    rw [slashes.2.1, Path.mk.injEq]
    refine ⟨?_, named⟩
    rcases rest with rfl | ⟨c, more, rfl, other⟩
    · rfl
    · simp [rootOf, other]
  | doubleTop =>
    rw [slashes.2.2, Path.mk.injEq]
    refine ⟨?_, named⟩
    rcases rest with rfl | ⟨c, more, rfl, other⟩
    · rfl
    · simp [rootOf, other]

/-! ## Paths made of paths -/

theorem mem_of_mem_collapse {atTop : Bool} {above names : List String} {name : String}
    (member : name ∈ collapse atTop above names) : name ∈ above ∨ name ∈ names := by
  fun_induction collapse atTop above names with
  | case1 => exact Or.inl (List.mem_reverse.1 member)
  | case2 rest ih =>
    refine Or.inr ((ih member).elim (fun known => ?_) (List.mem_cons_of_mem _))
    split at known
    · cases known
    · exact List.mem_singleton.1 known ▸ List.mem_cons_self
  | case3 rest others ih =>
    rcases ih member with known | known
    · rcases List.mem_cons.1 known with rfl | known
      · exact Or.inr List.mem_cons_self
      · exact Or.inl known
    · exact Or.inr (List.mem_cons_of_mem _ known)
  | case4 rest last others _ ih =>
    exact (ih member).imp (List.mem_cons_of_mem _) (List.mem_cons_of_mem _)
  | case5 above first rest _ ih =>
    rcases ih member with known | known
    · rcases List.mem_cons.1 known with rfl | known
      · exact Or.inr List.mem_cons_self
      · exact Or.inl known
    · exact Or.inr (List.mem_cons_of_mem _ known)

/-- A path from the top without double dots whose names can be written: what `absolute` and `normal` make of a path
that was read from a text. -/
structure IsExact (path : Path) : Prop where
  absolute : path.isAbsolute = true
  plain : Plain path.names
  written : ∀ name ∈ path.names, CanBeWritten name

theorem isExact_normal_absolute {here : List String} (hereWritten : ∀ name ∈ here, CanBeWritten name)
    (written : ∀ name ∈ path.names, CanBeWritten name) : (path.absolute here).normal.IsExact := by
  have names : ∀ name ∈ (path.absolute here).names, CanBeWritten name := by
    rw [Path.absolute, join]
    split
    · exact written
    · exact List.forall_mem_append.2 ⟨hereWritten, written⟩
  refine ⟨isAbsolute_absolute here path, plain_normal (isAbsolute_absolute here path), fun name member => ?_⟩
  exact names name ((mem_of_mem_collapse member).resolve_left List.not_mem_nil)

theorem IsExact.child (exact : path.IsExact) {name : String} (named : CanBeWritten name) (notDots : name ≠ "..") :
    (path.child name).IsExact where
  absolute := exact.absolute
  plain := List.forall_mem_append.2 ⟨exact.plain, List.forall_mem_singleton.2 notDots⟩
  written := List.forall_mem_append.2 ⟨exact.written, List.forall_mem_singleton.2 named⟩

theorem IsExact.ofText_text (exact : path.IsExact) : ofText path.text = path :=
  Path.ofText_text exact.written

/-- An exact path stays as it is when it is made absolute and normal once more. -/
theorem IsExact.normal_absolute (exact : path.IsExact) (here : List String) : (path.absolute here).normal = path := by
  rw [Path.absolute, join, if_pos exact.absolute, normal_of_plain exact.plain]

end Path

end LayeredConfig.File
