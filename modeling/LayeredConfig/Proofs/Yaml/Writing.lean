import LayeredConfig.Proofs.Outcome
import LayeredConfig.Proofs.Yaml.Reading
import LayeredConfig.Proofs.Yaml.TreeRows

/-!
# What can be written

A text is written if all its lines are, and so a tree has a canonical text if each of its scalars and keys can be
written by itself (`writes_write_iff`), and the characters of that text are theirs and those of the layout. The only
scalars that cannot be written are texts that are integer numerals too long to be read, since a text is read to decide
about its quotes.
-/

namespace LayeredConfig

namespace Yaml

namespace Scalar

theorem beginsNumber_of_parse? {text : List Char} {numeral : IntegerNumeral}
    (parsed : IntegerNumeral.parse? text = some numeral) : BeginsNumber text := by
  unfold IntegerNumeral.parse? at parsed
  dsimp only at parsed
  split at parsed
  · cases parsed
  · next d rest body =>
    split at parsed
    · next digits =>
      simp only [Bool.and_eq_true] at digits
      exact ⟨d, rest, body, Or.inl digits.1.1⟩
    · cases parsed

theorem read_of_isOverlong {text : List Char} (long : IsOverlong text) : read text = .error .numeralTooLong := by
  obtain ⟨numeral, parsed, many⟩ := long
  have int : int? text = .error .numeralTooLong := by
    rw [int?, parsed]
    exact if_pos many
  rw [read, constant?_of_beginsNumber (beginsNumber_of_parse? parsed), int]

/-- An integer numeral that is too long cannot be written as a text. -/
theorem stringText_of_isOverlong {text : List Char} (long : IsOverlong text) (asKey : Bool) :
    stringText text asKey = .error .numeralTooLong := by
  obtain ⟨c, rest, body, -⟩ := beginsNumber_of_parse? long.choose_spec.1
  have nonempty : text.isEmpty = false := by
    cases text with
    | nil => cases body
    | cons => rfl
  rw [stringText, needsQuotes, nonempty, read_of_isOverlong long]
  rfl

end Scalar

/-- A text or a line that can be written, and holds such characters only. -/
def Writes (good : Char → Prop) (line : Line) : Prop :=
  ∃ chars, line = .ok chars ∧ ∀ c ∈ chars, good c

theorem writes_ok_iff {good : Char → Prop} {chars : List Char} : Writes good (.ok chars) ↔ ∀ c ∈ chars, good c := by
  refine ⟨?_, fun all => ⟨chars, rfl, all⟩⟩
  rintro ⟨_, same, all⟩
  cases same
  exact all

theorem writes_stringText_iff {text : List Char} {asKey : Bool} :
    Writes (fun _ => True) (Scalar.stringText text asKey) ↔ ¬Scalar.IsOverlong text := by
  constructor
  · rintro ⟨chars, writes, -⟩ long
    rw [Scalar.stringText_of_isOverlong long] at writes
    cases writes
  · intro short
    obtain ⟨quotes, decided⟩ := Scalar.exists_needsQuotes short asKey
    rw [Scalar.stringText, decided]
    exact ⟨_, rfl, fun _ _ => trivial⟩

/-- The two characters that YAML refuses have no escape in the quoted form. -/
theorem mem_quote_of_unreadable {text : List Char} {c : Char} (unreadable : isReadable c = false) (member : c ∈ text) :
    c ∈ quote text := by
  have itself : escapeChar c = [c] := by
    rw [isReadable, Bool.and_eq_false_iff, bne_eq_false_iff_eq, bne_eq_false_iff_eq] at unreadable
    rcases unreadable with rfl | rfl <;> rfl
  have inside : c ∈ text.flatMap escapeChar :=
    List.mem_flatMap.2 ⟨c, member, itself ▸ List.mem_singleton_self c⟩
  exact List.mem_append_left _ (List.mem_cons_of_mem _ inside)

/-- What is written for a text can be read if it holds none of the two characters that YAML refuses. -/
theorem printable_stringText_iff {text : List Char} {asKey : Bool} :
    Writes (isPrintable · = true) (Scalar.stringText text asKey) ↔ Scalar.IsWritableText text := by
  constructor
  · rintro ⟨chars, writes, printable⟩
    have short := writes_stringText_iff.1 ⟨chars, writes, fun _ _ => trivial⟩
    refine ⟨List.all_eq_true.2 fun c member => ?_, short⟩
    obtain ⟨quotes, decided⟩ := Scalar.exists_needsQuotes short asKey
    rw [Scalar.stringText, decided] at writes
    cases writes
    rw [← Bool.not_eq_false]
    intro unreadable
    have stays : c ∈ if quotes then quote text else text := by
      split
      · exact mem_quote_of_unreadable unreadable member
      · exact member
    exact absurd (unreadable.symm.trans (isReadable_of_isPrintable (printable c stays))) Bool.false_ne_true
  · intro writable
    have back := Scalar.readsBack_ofText writable asKey
    exact ⟨_, Scalar.stringText_of_isWritableText writable asKey, List.all_eq_true.1 back.printable⟩

/-! ## Lines -/

/-- The characters that lines are made of, apart from scalars and keys. -/
def layoutChars : List Char :=
  " -:[]\x7b\x7d\n".toList

variable {good : Char → Prop} {indent : Nat} {lead line : Line} {tree : Tree} {below lines : List Line}
  {items : List Tree} {entries : List (String × Tree)}

theorem forall_mem_of_layout (layout : ∀ c ∈ layoutChars, good c) {chars : List Char}
    (all : chars.all layoutChars.contains = true) : ∀ c ∈ chars, good c :=
  fun c member => layout c (List.contains_iff_mem.1 (List.all_eq_true.1 all c member))

theorem exists_joinLines_iff (layout : ∀ c ∈ layoutChars, good c) :
    (∃ text, joinLines lines = (text, none) ∧ ∀ c ∈ text, good c) ↔ ∀ line ∈ lines, Writes good line := by
  induction lines with
  | nil => exact ⟨fun _ => nofun, fun _ => ⟨[], rfl, nofun⟩⟩
  | cons line rest ih =>
    rw [List.forall_mem_cons, ← ih]
    cases line with
    | error e =>
      refine ⟨fun ⟨_, joined, _⟩ => ?_, fun ⟨⟨_, impossible, _⟩, _⟩ => ?_⟩
      · cases joined
      · cases impossible
    | ok chars =>
      rw [writes_ok_iff]
      constructor
      · rintro ⟨text, joined, all⟩
        obtain ⟨rfl, whole⟩ := Prod.mk.inj joined
        rw [List.forall_mem_append, List.forall_mem_cons] at all
        exact ⟨all.1, _, Prod.ext rfl whole, all.2.2⟩
      · rintro ⟨first, text, joined, others⟩
        refine ⟨chars ++ '\n' :: text, by rw [joinLines, joined], ?_⟩
        exact List.forall_mem_append.2 ⟨first, List.forall_mem_cons.2 ⟨layout _ (by decide), others⟩⟩

theorem writes_write_iff_lines (layout : ∀ c ∈ layoutChars, good c) :
    Writes good (write tree) ↔ ∀ line ∈ treeLines tree, Writes good line := by
  rw [← exists_joinLines_iff layout, write]
  split
  · next text joined =>
    rw [writes_ok_iff, joined]
    refine ⟨fun all => ⟨text, rfl, all⟩, ?_⟩
    rintro ⟨_, same, all⟩
    cases same
    exact all
  · next joined =>
    rw [joined]
    refine ⟨fun ⟨_, impossible, _⟩ => ?_, fun ⟨_, impossible, _⟩ => ?_⟩ <;> cases impossible

theorem inline?_of_leaf (leaf : tree.isContainer = false) : inline? tree = some (Scalar.write tree) := by
  cases tree with
  | sequence | mapping => cases leaf
  | null | bool | int | double | string => rfl

/-- What leads in a child can be written if the lead can be and the child can, be it in its line or below. -/
theorem leadIn_writes_iff (layout : ∀ c ∈ layoutChars, good c) :
    (∀ line ∈ leadIn lead tree below, Writes good line)
      ↔ Writes good lead ∧ match inline? tree with
        | some text => Writes good text
        | none => ∀ line ∈ below, Writes good line := by
  unfold leadIn
  cases inline? tree with
  | none => exact List.forall_mem_cons
  | some text =>
    refine List.forall_mem_singleton.trans ⟨?_, ?_⟩
    · rintro ⟨chars, whole, all⟩
      obtain ⟨front, led, rest⟩ := Outcome.bind_eq_ok.1 whole
      obtain ⟨back, written, same⟩ := Outcome.bind_eq_ok.1 rest
      cases same
      rw [List.forall_mem_append, List.forall_mem_cons] at all
      exact ⟨⟨front, led, all.1⟩, back, written, all.2.2⟩
    · rintro ⟨⟨front, rfl, first⟩, back, rfl, others⟩
      exact ⟨_, rfl, List.forall_mem_append.2 ⟨first, List.forall_mem_cons.2 ⟨layout _ (by decide), others⟩⟩⟩

theorem forall_mem_itemLines {suits : Line → Prop} :
    (∀ line ∈ itemLines indent items, suits line)
      ↔ ∀ item ∈ items, ∀ line ∈ leadIn (itemLead indent) item (childLines (indent + 2) item), suits line := by
  induction items with
  | nil => exact ⟨fun _ => nofun, fun _ => nofun⟩
  | cons item rest ih => rw [itemLines, List.forall_mem_append, ih, List.forall_mem_cons]

theorem entryBlocks_eq_map (indent : Nat) (entries : List (String × Tree)) :
    entryBlocks indent entries = entries.map fun entry =>
      (entry.1, leadIn (entryLead indent entry.1) entry.2 (childLines (indent + 2) entry.2)) := by
  induction entries with
  | nil => rfl
  | cons entry rest ih => rw [entryBlocks, ih, List.map_cons]

theorem forall_mem_entryLines {suits : Line → Prop} :
    (∀ line ∈ childLines indent (.mapping entries), suits line)
      ↔ ∀ entry ∈ entries, ∀ line ∈ leadIn (entryLead indent entry.1) entry.2 (childLines (indent + 2) entry.2),
        suits line := by
  have same : ∀ block, block ∈ Entries.sortByKey (entryBlocks indent entries) ↔ block ∈ entryBlocks indent entries :=
    fun _ => (Entries.sortByKey_perm _).mem_iff
  rw [childLines, List.forall_mem_flatMap]
  simp only [same]
  rw [entryBlocks_eq_map, List.forall_mem_map]

theorem forall_mem_pad (layout : ∀ c ∈ layoutChars, good c) (indent : Nat) : ∀ c ∈ pad indent, good c := by
  intro c member
  rw [List.eq_of_mem_replicate member]
  exact layout _ (by decide)

theorem writes_itemLead (layout : ∀ c ∈ layoutChars, good c) : Writes good (itemLead indent) :=
  writes_ok_iff.2 (List.forall_mem_append.2
    ⟨forall_mem_pad layout indent, List.forall_mem_singleton.2 (layout _ (by decide))⟩)

theorem writes_entryLead_iff (layout : ∀ c ∈ layoutChars, good c) {name : String} :
    Writes good (entryLead indent name) ↔ Writes good (Scalar.writeKey name) := by
  unfold entryLead
  cases Scalar.writeKey name with
  | ok text =>
    refine writes_ok_iff.trans (Iff.trans ?_ writes_ok_iff.symm)
    rw [List.forall_mem_append, List.forall_mem_append, List.forall_mem_singleton,
      and_iff_right (forall_mem_pad layout indent), and_iff_left (layout _ (by decide))]
  | error e => constructor <;> (rintro ⟨_, impossible, -⟩; cases impossible)

/-- A node can be written, in its line or below, if all its scalars and keys can be. -/
theorem inline_or_below_writes_iff (layout : ∀ c ∈ layoutChars, good c) {scalar : Tree → Prop} {key : String → Prop}
    (madeOf : tree.MadeOf scalar key) :
    (match inline? tree with
      | some text => Writes good text
      | none => ∀ line ∈ childLines indent tree, Writes good line)
      ↔ tree.MadeOf (fun node => Writes good (Scalar.write node)) (fun name => Writes good (Scalar.writeKey name)) := by
  induction madeOf generalizing indent with
  | scalar leaf => rw [inline?_of_leaf leaf, Tree.madeOf_scalar_iff leaf]
  | @sequence items _ ih =>
    cases items with
    | nil =>
      exact ⟨fun _ => .sequence fun _ member => absurd member List.not_mem_nil,
        fun _ => writes_ok_iff.2 (forall_mem_of_layout layout (by decide))⟩
    | cons item rest =>
      rw [Tree.madeOf_sequence_iff]
      refine forall_mem_itemLines.trans (forall₂_congr fun item member => ?_)
      exact (leadIn_writes_iff layout).trans ((and_iff_right (writes_itemLead layout)).trans (ih item member))
  | @mapping entries distinct keys _ ih =>
    cases entries with
    | nil => exact ⟨fun _ => Tree.madeOf_empty, fun _ => writes_ok_iff.2 (forall_mem_of_layout layout (by decide))⟩
    | cons entry rest =>
      rw [Tree.madeOf_mapping_iff, and_iff_right distinct]
      refine forall_mem_entryLines.trans ⟨fun lines => ?_, fun parts entry member => ?_⟩
      · have both := fun entry member => (leadIn_writes_iff layout).1 (lines entry member)
        exact ⟨fun entry member => (writes_entryLead_iff layout).1 (both entry member).1,
          fun entry member => (ih entry member).1 (both entry member).2⟩
      · obtain ⟨keys, inner⟩ := parts
        exact (leadIn_writes_iff layout).2
          ⟨(writes_entryLead_iff layout).2 (keys entry member), (ih entry member).2 (inner entry member)⟩

/-- A tree has a canonical text with such characters only if all its scalars and keys can be written with them. -/
theorem writes_write_iff (layout : ∀ c ∈ layoutChars, good c) {scalar : Tree → Prop} {key : String → Prop}
    (madeOf : tree.MadeOf scalar key) :
    Writes good (write tree)
      ↔ tree.MadeOf (fun node => Writes good (Scalar.write node)) (fun name => Writes good (Scalar.writeKey name)) := by
  rw [writes_write_iff_lines layout, ← inline_or_below_writes_iff layout madeOf, treeLines]
  cases inline? tree with
  | some text => exact List.forall_mem_singleton
  | none => exact Iff.rfl

/-- A tree has a canonical text just if all its scalars and keys can be written. -/
theorem exists_write_iff {scalar : Tree → Prop} {key : String → Prop} (madeOf : tree.MadeOf scalar key) :
    (∃ text, write tree = .ok text)
      ↔ tree.MadeOf (fun node => Writes (fun _ => True) (Scalar.write node))
          (fun name => Writes (fun _ => True) (Scalar.writeKey name)) := by
  have any : (∃ text, write tree = .ok text) ↔ Writes (fun _ => True) (write tree) :=
    ⟨fun ⟨text, written⟩ => ⟨text, written, fun _ _ => trivial⟩, fun ⟨text, written, _⟩ => ⟨text, written⟩⟩
  exact any.trans (writes_write_iff (fun _ _ => trivial) madeOf)

/-- A node of a tree that has a canonical text has one, too. -/
theorem exists_write_find {path : KeyPath} {node : Tree} {scalar : Tree → Prop} {key : String → Prop}
    (madeOf : tree.MadeOf scalar key) (canonical : ∃ text, write tree = .ok text) (found : tree.find path = some node) :
    ∃ text, write node = .ok text := by
  have parts := ((exists_write_iff madeOf).1 canonical).find found
  exact (exists_write_iff parts).2 parts

end Yaml

end LayeredConfig
