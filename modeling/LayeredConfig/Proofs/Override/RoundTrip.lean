import LayeredConfig.Override.Basic
import LayeredConfig.Proofs.KeyPath.Rendered
import LayeredConfig.Proofs.Yaml.RoundTrip

/-!
# Reading a written override back

An override is written as a plus sign, if it adds a node, its path, an equals sign and the text of a scalar. Three
grammars meet in that text. No component holds an equals sign, so the first one ends the path; the path is read back
by `KeyPath.parse_render`; and the document that the value text is read in is the canonical text of a mapping with one
entry, which `Yaml.read_orderedText` reads back.
-/

namespace LayeredConfig

namespace Override

open Yaml

variable {value : Tree}

/-- The text of an override, when `text` is that of its value. -/
def written (path : KeyPath) (text : List Char) (add : Bool) : String :=
  (if add then "+" else "") ++ path.render ++ "=" ++ String.ofList text

/-! ## The path -/

theorem splitEquals_append {key : List Char} (free : '=' ∉ key) (value : List Char) :
    splitEquals (key ++ '=' :: value) = some (key, value) := by
  induction key with
  | nil => rfl
  | cons c key ih =>
    rw [List.mem_cons, not_or] at free
    rw [List.cons_append, splitEquals, ih free.2]
    · rfl
    · exact fun same => free.1 same.symm

theorem free_of_components {path : KeyPath} (free : ∀ component ∈ path, '=' ∉ component.toList) :
    '=' ∉ path.renderChars := by
  intro member
  rcases KeyPath.mem_of_mem_renderChars member with same | same | ⟨component, inside, member⟩
  · cases same
  · cases same
  · exact free component inside member

theorem toList_written {path : KeyPath} (some : path ≠ []) (text : List Char) (add : Bool) :
    (written path text add).toList = (if add then ['+'] else []) ++ (path.renderChars ++ '=' :: text) := by
  cases add <;> simp [written, KeyPath.toList_render some]

/-- Only the sign that an override is written with is taken off. -/
theorem parse_written {first : String} (path : KeyPath) (nonempty : first ≠ "") (text : List Char) {add : Bool}
    (unsigned : add = false → first.toList.head? ≠ some '+') :
    parse (written (first :: path) text add)
      = parseBody (written (first :: path) text add) add (KeyPath.renderChars (first :: path) ++ '=' :: text) := by
  obtain ⟨c, rest, chars, head⟩ := KeyPath.exists_head_renderChars path nonempty
  unfold parse
  rw [toList_written (List.cons_ne_nil first path), chars]
  cases add with
  | true => rfl
  | false =>
    have noSign : c ≠ '+' := by
      rintro rfl
      rcases head with same | head
      · cases same
      · exact unsigned rfl head
    simp only [Bool.false_eq_true, if_false, List.nil_append, List.cons_append]
    split
    · next same => cases same
    · next same => exact absurd (List.cons.inj same).1 noSign
    · next same => exact absurd (List.cons.inj same).1 noSign
    · rfl

/-! ## The value -/

/-- The document of a written scalar is the canonical text of the mapping that holds it. -/
theorem document_ofScalar (scalar : value.isContainer = false) :
    document (Written.ofScalar value).chars = orderedText (.mapping [(valueKey, value)]) := by
  have key : Written.ofText valueKey.toList true = ⟨valueKey.toList, false⟩ := by decide
  have cell : cell? value = some (.scalar (Written.ofScalar value)) := by
    cases value with
    | sequence | mapping => cases scalar
    | null | bool | int | double | string => rfl
  show _ = rowsText (leadRows 0 (keyLead valueKey) value _ ++ [])
  rw [leadRows, cell, List.append_nil, keyLead, key]
  simp [document, rowsText, Row.line, Row.content, Row.tail, Lead.chars, Cell.chars, Written.chars]

theorem parseValue_ofScalar (writable : Scalar.IsWritable value) :
    parseValue (Written.ofScalar value).chars = .ok value := by
  have scalar : value.isContainer = false := by
    cases value with
    | sequence | mapping => exact writable.elim
    | null | bool | int | double | string => rfl
  have node : value.IsWritable := by
    cases value with
    | sequence | mapping => exact writable.elim
    | null | bool | int | double | string => exact writable
  have key : Scalar.IsWritableKey valueKey := by decide
  have distinct : value.HasDistinctKeys := by
    cases value with
    | sequence | mapping => exact writable.elim
    | null | bool | int | double | string => trivial
  have whole : Yaml.read "<override>" (orderedText (.mapping [(valueKey, value)])) = .ok _ :=
    read_orderedText _ ⟨key, node, trivial⟩ ⟨List.pairwise_singleton _ _, distinct, trivial⟩
  rw [parseValue, document_ofScalar scalar, whole]
  rfl

/-- What follows the sign is read as a path and a value. -/
theorem parseBody_rendered {path : KeyPath} (filled : path ≠ []) (nonempty : ∀ component ∈ path, component ≠ "")
    (free : ∀ component ∈ path, '=' ∉ component.toList) (writable : Scalar.IsWritable value) (expression : String)
    (add : Bool) :
    parseBody expression add (path.renderChars ++ '=' :: (Written.ofScalar value).chars) = .ok ⟨path, value, add⟩ := by
  have read := KeyPath.parse_render filled nonempty
  rw [← String.ofList_toList (s := path.render), KeyPath.toList_render filled] at read
  have value_ne_nil := List.length_pos_iff.1 (Written.length_chars_pos (Scalar.readsBack_ofScalar writable).sound)
  rw [parseBody, splitEquals_append (free_of_components free)]
  split
  · next same => cases same
  · next same =>
    have empty : path.renderChars = [] := congrArg Prod.fst (Option.some.inj same)
    rw [empty] at read
    cases read
  · next same => exact absurd (congrArg Prod.snd (Option.some.inj same)) value_ne_nil
  · next key text _ _ same =>
    cases same
    rw [read, parseValue_ofScalar writable]
    rfl

/-- An override whose path has components without equals signs, none of them empty, and whose value is a scalar that
can be written is read back from its text. The first component may begin with a plus sign only behind the sign of an
override that adds. -/
theorem parse_written_scalar (path : KeyPath) (filled : path ≠ []) (nonempty : ∀ component ∈ path, component ≠ "")
    (free : ∀ component ∈ path, '=' ∉ component.toList) (add : Bool)
    (unsigned : add = false → ∀ first ∈ path.head?, first.toList.head? ≠ some '+')
    (value : Tree) (writable : Scalar.IsWritable value) :
    ∃ text, Scalar.write value = .ok text ∧ parse (written path text add) = .ok ⟨path, value, add⟩ := by
  refine ⟨_, Scalar.write_of_isWritable writable, ?_⟩
  cases path with
  | nil => exact absurd rfl filled
  | cons first path =>
    rw [parse_written path (nonempty first List.mem_cons_self) _ fun replaces => unsigned replaces first rfl]
    exact parseBody_rendered filled nonempty free writable _ add

/-- A path with points, a backslash and a plus sign, one component of which would be a comment in a value. -/
def thornyPath : KeyPath :=
  ["a.b\\", " # ", "+c"]

/-- A string that would be an entry, a comment, a second line or a number. -/
def thornyValue : Tree :=
  .string "=a: [b] # 'c'\n\"1e5"

theorem parse_written_scalar_thornyPath :
    (∀ component ∈ thornyPath, component ≠ "" ∧ '=' ∉ component.toList)
      ∧ (∀ first ∈ thornyPath.head?, first.toList.head? ≠ some '+')
      ∧ Scalar.IsWritable thornyValue
      ∧ ∃ text, Scalar.write thornyValue = .ok text
        ∧ parse (written thornyPath text false) = .ok ⟨thornyPath, thornyValue, false⟩ := by
  have components : ∀ component ∈ thornyPath, component ≠ "" ∧ '=' ∉ component.toList := by decide
  have unsigned : ∀ first ∈ thornyPath.head?, first.toList.head? ≠ some '+' := by decide
  have writable : thornyValue.IsWritable := by decide +kernel
  refine ⟨components, unsigned, writable, ?_⟩
  exact parse_written_scalar thornyPath (List.cons_ne_nil _ _) (fun component member => (components component member).1)
    (fun component member => (components component member).2) false (fun _ => unsigned) thornyValue writable

end Override

end LayeredConfig
