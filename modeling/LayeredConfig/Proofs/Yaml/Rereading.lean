import LayeredConfig.Proofs.Yaml.Failures
import LayeredConfig.Tree.Equality

/-!
# Reading again what was read

A tree that was read from a text has a canonical text just if no string and no key is an integer numeral that is too
long, and if no key is too long, that text is read again just if no character that YAML refuses even in quotes stands
in the strings and keys: `reread`. The reader takes all of these in, by quotes, behind a question mark and by escapes,
while the canonical text has none of these means for them. The characters come in by escapes only, those that name a
surrogate among them: `readable_read`.
-/

namespace LayeredConfig

namespace Tree

variable {tree : Tree}

theorem itemsAreWritable_iff {items : List Tree} : ItemsAreWritable items ↔ ∀ item ∈ items, item.IsWritable := by
  induction items with
  | nil => simp [ItemsAreWritable]
  | cons item rest ih => rw [ItemsAreWritable, ih, List.forall_mem_cons]

/-- A tree made of scalars and keys that can be written and read back. -/
theorem MadeOf.isWritable (madeOf : tree.MadeOf Yaml.Scalar.IsWritable Yaml.Scalar.IsWritableKey) :
    tree.IsWritable := by
  induction madeOf with
  | @scalar node leaf good =>
    cases node with
    | sequence | mapping => cases leaf
    | null | bool | int | double | string => exact good
  | sequence _ ih => exact itemsAreWritable_iff.2 ih
  | mapping _ keys _ ih =>
    exact entriesAreWritable_iff.2 fun entry member => ⟨keys entry member, ih entry member⟩

/-- The strings and keys decide whether a regular tree can be written and read back. -/
theorem Regular.isWritable (regular : tree.Regular)
    (strings : ∀ text, tree.HasString text → Yaml.Scalar.IsWritableText text.toList)
    (keys : ∀ name, tree.HasKey name → Yaml.Scalar.IsWritableKey name) : tree.IsWritable := by
  have texts := (madeOf_texts_iff regular).2 ⟨strings, keys⟩
  refine MadeOf.isWritable ((regular.and texts).imp (fun node leaf good => ?_) fun name named => named.2)
  cases node with
  | null | bool | int => exact trivial
  | double value => exact good.1
  | string text => exact good.2 text rfl
  | sequence | mapping => cases leaf

end Tree

namespace Yaml

/-- A scalar can be written if it is no text that is an integer numeral too long to be read. -/
theorem writes_scalar_iff {node : Tree} (leaf : node.isContainer = false) :
    Writes (fun _ => True) (Scalar.write node) ↔ ∀ text, node = .string text → ¬Scalar.IsOverlong text.toList := by
  cases node with
  | null | bool | int | double => exact ⟨fun _ _ => nofun, fun _ => ⟨_, rfl, fun _ _ => trivial⟩⟩
  | string text =>
    refine writes_stringText_iff.trans ⟨fun short _ same => ?_, fun short => short text rfl⟩
    cases same
    exact short
  | sequence | mapping => cases leaf

/-- What is written for a scalar can be read if that holds of a text. -/
theorem printable_scalar_iff {node : Tree} (leaf : node.isContainer = false) (finite : node.IsFiniteNode) :
    Writes (isPrintable · = true) (Scalar.write node)
      ↔ ∀ text, node = .string text → Scalar.IsWritableText text.toList := by
  have other (writable : Scalar.IsWritable node) : Writes (isPrintable · = true) (Scalar.write node) :=
    ⟨_, Scalar.write_of_isWritable writable, List.all_eq_true.1 (Scalar.readsBack_ofScalar writable).printable⟩
  cases node with
  | null | bool | int => exact ⟨fun _ _ same => (by cases same), fun _ => other trivial⟩
  | double value => exact ⟨fun _ _ same => (by cases same), fun _ => other finite⟩
  | string text =>
    refine printable_stringText_iff.trans ⟨fun writable _ same => ?_, fun writable => writable text rfl⟩
    cases same
    exact writable
  | sequence | mapping => cases leaf

/-- A tree has a canonical text if no string and no key is an integer numeral too long to be read. -/
theorem exists_write_iff_short {tree : Tree} (regular : tree.Regular) :
    (∃ out, write tree = .ok out)
      ↔ (∀ text, tree.HasString text → ¬Scalar.IsOverlong text.toList)
        ∧ ∀ name, tree.HasKey name → ¬Scalar.IsOverlong name.toList := by
  rw [← Tree.madeOf_texts_iff regular, exists_write_iff regular]
  exact ⟨fun writes => writes.imp (fun _ leaf => (writes_scalar_iff leaf).1) fun _ => writes_stringText_iff.1,
    fun short => short.imp (fun _ leaf => (writes_scalar_iff leaf).2) fun _ => writes_stringText_iff.2⟩

/-- A canonical text holds printable characters only if no string and no key of the tree holds others than these and
those with an escape. -/
theorem printable_write_iff {tree : Tree} (regular : tree.Regular) :
    Writes (isPrintable · = true) (write tree)
      ↔ (∀ text, tree.HasString text → Scalar.IsWritableText text.toList)
        ∧ ∀ name, tree.HasKey name → Scalar.IsWritableText name.toList := by
  have layout : layoutChars.all isPrintable = true := by decide
  rw [← Tree.madeOf_texts_iff regular, writes_write_iff (List.all_eq_true.1 layout) regular]
  refine ⟨fun writes => (regular.and writes).imp (fun _ leaf good => ?_) fun _ named => ?_, fun texts =>
    (regular.and texts).imp (fun _ leaf good => ?_) fun _ named => ?_⟩
  · exact (printable_scalar_iff leaf good.1).1 good.2
  · exact printable_stringText_iff.1 named.2
  · exact (printable_scalar_iff leaf good.1).2 good.2
  · exact printable_stringText_iff.2 named.2

/-- A regular tree that has a canonical text can be read back from it, if its texts hold none of the two characters that
YAML refuses even in quotes and its keys are not too long. -/
theorem isWritable_of_write {tree : Tree} {out : List Char} (regular : tree.Regular) (writes : write tree = .ok out)
    (strings : ∀ text, tree.HasString text → text.toList.all isReadable = true)
    (keys : ∀ name, tree.HasKey name → name.toList.all isReadable = true
      ∧ ∀ keyText, Scalar.writeKey name = .ok keyText → keyText.length ≤ keyReach) : tree.IsWritable := by
  obtain ⟨shortStrings, shortKeys⟩ := (exists_write_iff_short regular).1 ⟨out, writes⟩
  exact regular.isWritable (fun text has => ⟨strings text has, shortStrings text has⟩)
    fun name has => ⟨⟨(keys name has).1, shortKeys name has⟩, (keys name has).2⟩

/-- The canonical text of a writable tree is read as that tree in order. -/
theorem read_of_write {tree : Tree} {out : List Char} (regular : tree.Regular) (writable : tree.IsWritable)
    (writes : write tree = .ok out) (source : String) : read source out = .ok tree.ordered := by
  rw [write_eq writable] at writes
  cases writes
  exact read_orderedText source (Tree.isWritable_ordered tree writable)
    (Tree.hasDistinctKeys_ordered tree regular.hasDistinctKeys)

/-- A text is read only if all its characters are printable. -/
theorem isPrintable_of_read {source : String} {text : List Char} {tree : Tree} (reads : read source text = .ok tree) :
    ∀ c ∈ text, isPrintable c = true := by
  rw [← List.all_eq_true]
  refine Decidable.byContradiction fun unprintable => ?_
  have none : tokens text = ([], some .malformed) := if_neg unprintable
  rw [read, none] at reads
  cases reads

/-- What is read from a text holds readable characters only, unless the text names others. -/
theorem readable_read {source : String} {text : List Char} {tree : Tree} (reads : read source text = .ok tree)
    (names : ¬NamesUnreadable text) :
    (∀ string, tree.HasString string → string.toList.all isReadable = true)
      ∧ ∀ name, tree.HasKey name → name.toList.all isReadable = true := by
  have printable := isPrintable_of_read reads
  have events := (traces_events text).1
  rw [← Tree.madeOf_texts_iff (regular_read reads)]
  have start : Walk.MadeOf (fun node => ∀ string, node = .string string → string.toList.all isReadable = true)
      (fun name => name.toList.all isReadable = true) .beforeStream := trivial
  have empty (string : String) (same : Tree.null = .string string) : string.toList.all isReadable = true := by
    cases same
  refine Walk.madeOf_run empty (fun string good => good string rfl) start (fun event member => ?_) reads
  intro properties word style node scalar typed
  obtain ⟨leaf, -, itself⟩ := Walk.scalar_of_scalarNode typed
  have legible := (events event member properties word style scalar).1
  refine .scalar leaf fun string same => ?_
  rw [itself string same, String.toList_ofList]
  exact legible.all_isReadable printable names

/-- An escape whose number is that of a character is read as the text of that character. -/
theorem read_escapeText_line (wide : FlowScalar.escapeWidth? letter = some digits.length)
    (hex : digits.all Text.isHexDigit = true) (named : FlowScalar.ofCodePoint (Text.hexValue digits) = .ok ch) :
    read source (escapeText letter digits ++ ['\n']) = .ok (.string (String.ofList [ch])) := by
  let start := Cursor.start (escapeText letter digits ++ ['\n'])
  have printable : (escapeText letter digits ++ ['\n']).all isPrintable = true := by
    rw [List.all_append, all_isPrintable_escapeText wide hex]
    rfl
  have scanned : FlowScalar.scan true start = .ok ([ch], start.along (escapeText letter digits).length ['\n']) := by
    have front : start.rest = '"' :: '\\' :: letter :: (digits ++ '"' :: ['\n']) := by
      simp [start, Cursor.start, escapeText]
    have count : (escapeText letter digits).length = 4 + digits.length := by
      simp only [escapeText, List.length_cons, List.length_append, List.length_nil]
      omega
    rw [FlowScalar.scan_of_digits wide hex front, named, count]
    rfl
  have noRows : RowsSound [] := trivial
  have cut : tokens (escapeText letter digits ++ ['\n'])
      = ([.streamStart, .scalar [ch] .doubleQuoted, .streamEnd], none) :=
    tokens_of_yields printable
      (Lexer.Yields.of_doubleQuoted rfl noRows rfl scanned (Nat.le_refl 0) (Lexer.yieldsRows noRows []))
  unfold read
  rw [cut]
  rfl

/-- A string of one character has a canonical text, which is refused if the character is not readable. -/
theorem refused_of_unreadable {ch : Char} (unreadable : isReadable ch = false) :
    ∃ out, write (.string (String.ofList [ch])) = .ok out ∧ ∀ source again, read source out ≠ .ok again := by
  have regular : (Tree.string (String.ofList [ch])).Regular := .scalar rfl trivial
  have short : ¬Scalar.IsOverlong [ch] := fun overlong => by
    obtain ⟨digits, part, -, long⟩ := overlong.hasLongDigits
    have few : digits.length ≤ 1 := part.length_le
    have limit : 1 ≤ digitLimit := by decide
    omega
  have texts : (Tree.string (String.ofList [ch])).MadeOf
      (fun node => ∀ string, node = .string string → ¬Scalar.IsOverlong string.toList) fun _ => False := by
    refine .scalar rfl fun string same => ?_
    rwa [← Tree.string.inj same, String.toList_ofList]
  obtain ⟨strings, keys⟩ := (Tree.madeOf_texts_iff texts).1 texts
  obtain ⟨out, writes⟩ := (exists_write_iff_short regular).2 ⟨strings, fun name has => (keys name has).elim⟩
  refine ⟨out, writes, fun source again rereads => ?_⟩
  have writable := ((printable_write_iff regular).1 ⟨out, writes, isPrintable_of_read rereads⟩).1 _ ⟨[], .root⟩
  have readable := writable.readable
  rw [String.toList_ofList, List.all_cons, unreadable] at readable
  cases readable

/-- What was read can be written again just if no string and no key is an integer numeral with too many digits. If no
key is too long, then its canonical text is read again just if the strings and keys hold no character that YAML refuses
even in quotes, and as the same tree, in order. They hold none if no escape of the text names one, a surrogate or a
noncharacter; and each such escape, alone on a line, is read as a string whose canonical text is refused. -/
theorem reread {source : String} {text : List Char} {tree : Tree} (reads : read source text = .ok tree) :
    ((∃ out, write tree = .ok out)
        ↔ (∀ string, tree.HasString string → ¬Scalar.IsOverlong string.toList)
          ∧ ∀ name, tree.HasKey name → ¬Scalar.IsOverlong name.toList)
      ∧ (∀ out, write tree = .ok out →
        (∀ name, tree.HasKey name → ∀ keyText, Scalar.writeKey name = .ok keyText → keyText.length ≤ keyReach) →
        ∀ source',
          ((∃ again, read source' out = .ok again)
            ↔ (∀ string, tree.HasString string → string.toList.all isReadable = true)
              ∧ ∀ name, tree.HasKey name → name.toList.all isReadable = true)
          ∧ ∀ again, read source' out = .ok again → again = tree.ordered)
      ∧ (¬NamesUnreadable text →
        (∀ string, tree.HasString string → string.toList.all isReadable = true)
          ∧ ∀ name, tree.HasKey name → name.toList.all isReadable = true)
      ∧ ∀ letter digits, FlowScalar.escapeWidth? letter = some digits.length → digits.all Text.isHexDigit = true →
        IsUnreadableCode (Text.hexValue digits) →
        ∃ named out, read source (escapeText letter digits ++ ['\n']) = .ok named ∧ write named = .ok out
          ∧ ∀ source' again, read source' out ≠ .ok again := by
  have regular := regular_read reads
  refine ⟨exists_write_iff_short regular, fun out writes short source' => ?_, readable_read reads,
    fun letter digits wide hex unreadable => ?_⟩
  · have back (strings : ∀ string, tree.HasString string → string.toList.all isReadable = true)
        (keys : ∀ name, tree.HasKey name → name.toList.all isReadable = true) : read source' out = .ok tree.ordered :=
      read_of_write regular
        (isWritable_of_write regular writes strings fun name has => ⟨keys name has, short name has⟩) writes source'
    have readable (again : Tree) (rereads : read source' out = .ok again) :
        (∀ string, tree.HasString string → string.toList.all isReadable = true)
          ∧ ∀ name, tree.HasKey name → name.toList.all isReadable = true := by
      obtain ⟨strings, keys⟩ := (printable_write_iff regular).1 ⟨out, writes, isPrintable_of_read rereads⟩
      exact ⟨fun string has => (strings string has).readable, fun name has => (keys name has).readable⟩
    refine ⟨⟨fun ⟨again, rereads⟩ => readable again rereads, fun ⟨strings, keys⟩ => ⟨_, back strings keys⟩⟩, ?_⟩
    intro again rereads
    obtain ⟨strings, keys⟩ := readable again rereads
    exact Except.ok.inj (rereads.symm.trans (back strings keys))
  · obtain ⟨ch, named⟩ := exists_ofCodePoint unreadable
    obtain ⟨out, writes, refused⟩ := refused_of_unreadable ((isReadable_of_ofCodePoint named).2 unreadable)
    exact ⟨_, out, read_escapeText_line wide hex named, writes, refused⟩

/-- Escapes and a literal block are written in another way and read again, and none of them names a character that
cannot be written. A noncharacter that was escaped is written as it is, and refused, and a surrogate is, too. -/
theorem reread_escapes :
    let text := "\"tab\\tand \\u263A\": [\"\\x41\", '12:30', 15]\nplain: |\n  two\n  lines\n".toList
    let tree : Tree := .mapping [("tab\tand ☺", .sequence [.string "A", .string "12:30", .int 15]),
      ("plain", .string "two\nlines\n")]
    (read "a.yaml" text = .ok tree ∧ ∃ out, write tree = .ok out ∧ ∀ source', read source' out = .ok tree.ordered)
      ∧ (read "b.yaml" "\"\\uFFFE\"\n".toList = .ok (.string "\ufffe")
        ∧ ∃ out, write (.string "\ufffe") = .ok out ∧ ∀ source' again, read source' out ≠ .ok again)
      ∧ ∃ named out, read "a.yaml" "\"\\uD800\"\n".toList = .ok named ∧ write named = .ok out
        ∧ ∀ source' again, read source' out ≠ .ok again := by
  intro text tree
  have reads : read "a.yaml" text = .ok tree := by decide +kernel
  have escaped : read "b.yaml" "\"\\uFFFE\"\n".toList = .ok (.string "\ufffe") := by decide +kernel
  obtain ⟨written, rereads, -, surrogate⟩ := reread reads
  refine ⟨⟨reads, ?_⟩, ⟨escaped, ?_⟩, ?_⟩
  · have texts : tree.MadeOf (fun node => ∀ text, node = .string text → Scalar.IsWritableText text.toList)
        Scalar.IsWritableKey := by
      decide +kernel
    obtain ⟨strings, keys⟩ := (Tree.madeOf_texts_iff texts).1 texts
    obtain ⟨out, writes⟩ := written.2
      ⟨fun text has => (strings text has).notOverlong, fun name has => (keys name has).text.notOverlong⟩
    refine ⟨out, writes, fun source' => ?_⟩
    obtain ⟨accepted, same⟩ := rereads out writes (fun name has => (keys name has).short) source'
    obtain ⟨again, reads'⟩ := accepted.2
      ⟨fun text has => (strings text has).readable, fun name has => (keys name has).text.readable⟩
    rw [reads', same again reads']
  · have texts : (Tree.string "\ufffe").MadeOf
        (fun node => ∀ text, node = .string text → ¬Scalar.IsOverlong text.toList) fun _ => False := by
      decide +kernel
    obtain ⟨short, noKeys⟩ := (Tree.madeOf_texts_iff texts).1 texts
    obtain ⟨written, rereads, -⟩ := reread escaped
    obtain ⟨out, writes⟩ := written.2 ⟨short, fun name has => (noKeys name has).elim⟩
    refine ⟨out, writes, fun source' again reads' => ?_⟩
    obtain ⟨accepted, -⟩ := rereads out writes (fun name has => (noKeys name has).elim) source'
    have readable := (accepted.1 ⟨again, reads'⟩).1 "\ufffe" ⟨[], .root⟩
    exact absurd readable (by decide)
  · exact surrogate 'u' "D800".toList rfl (by decide) (.inl (by decide))

end Yaml

end LayeredConfig
