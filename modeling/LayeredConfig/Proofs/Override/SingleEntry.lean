import LayeredConfig.Proofs.Override.RoundTrip
import LayeredConfig.Proofs.Yaml.OneEntry

/-!
# The entries behind a value text

The value text of an override is put behind the key of a document, and of the mapping that the document is read as only the
value at that key is taken. Where no further line of the value text begins like a key at the margin, that is the whole
mapping, `entries_of_parse`. Otherwise there may be further entries, which nothing refuses, `parseValue_furtherEntries`.
-/

namespace LayeredConfig

namespace Override

open Yaml

variable {expression : String} {change : Override} {text : List Char} {value : Tree}

theorem parseValue_of_parseBody {add : Bool} {body : List Char} (parses : parseBody expression add body = .ok change) :
    ∃ key text, splitEquals body = some (key, text) ∧ parseValue text = .ok change.value := by
  unfold parseBody at parses
  split at parses
  · cases parses
  · cases parses
  · cases parses
  · next key text _ _ splits =>
    obtain ⟨path, -, parses⟩ := Outcome.bind_eq_ok.1 parses
    obtain ⟨value, reads, parses⟩ := Outcome.bind_eq_ok.1 parses
    cases parses
    exact ⟨key, text, splits, reads⟩

/-- The value text of an override stands behind the first equals sign. -/
theorem parseValue_of_parse (parses : parse expression = .ok change) :
    ∃ key text, splitEquals expression.toList = some (key, text) ∧ parseValue text = .ok change.value := by
  unfold parse at parses
  split at parses
  · cases parses
  · cases parses
  · next body _ whole =>
    obtain ⟨key, text, splits, reads⟩ := parseValue_of_parseBody parses
    refine ⟨'+' :: key, text, ?_, reads⟩
    rw [whole, splitEquals, splits]
    · rfl
    · decide
  · exact parseValue_of_parseBody parses

theorem read_of_parseValue (reads : parseValue text = .ok value) :
    ∃ entries, Yaml.read "<override>" (document text) = .ok (.mapping entries)
      ∧ entries.lookup valueKey = some value := by
  obtain ⟨tree, read, takes⟩ := Outcome.bind_eq_ok.1 reads
  cases tree with
  | mapping entries =>
    refine ⟨entries, read, ?_⟩
    dsimp only at takes
    split at takes
    · next found =>
      cases takes
      exact found
    · cases takes
  | null | bool | int | double | string | sequence => cases takes

/-! ## One entry -/

theorem hasClearMargin_concat (clear : hasClearMargin text = true) : hasClearMargin (text ++ ['\n']) = true := by
  induction text with
  | nil => rfl
  | cons c rest ih =>
    rw [hasClearMargin, Bool.and_eq_true] at clear
    rw [List.cons_append, hasClearMargin, ih clear.2, Bool.and_true]
    cases rest with
    | nil => exact Bool.or_true _
    | cons d rest => exact clear.1

theorem isBody_of_hasClearMargin (clear : hasClearMargin text = true) : IsBody (' ' :: text ++ ['\n']) :=
  ⟨rfl, hasClearMargin_concat clear⟩

/-- The key that a value text is put behind, as it is written. -/
def writtenKey : Written :=
  ⟨valueKey.toList, false⟩

theorem readsBack_writtenKey : Scalar.ReadsBack writtenKey (.string valueKey) := by
  have written : Written.ofText valueKey.toList true = writtenKey := by decide
  rw [← written, ← String.ofList_toList (s := valueKey)]
  exact Scalar.readsBack_ofText (by decide) true

theorem single_entry_of_hasClearMargin {tree : Tree} (clear : hasClearMargin text = true)
    (reads : Yaml.read "<override>" (document text) = .ok tree) :
    (∃ value, tree = .mapping [(valueKey, value)])
      ∧ ∃ first, rootNodes 0 (eventsIn (document text)) = [writtenKey.event, first] :=
  exists_value_of_read readsBack_writtenKey (by decide) (isBody_of_hasClearMargin clear) reads

/-- An override that is read has its value from the document of its value text. If no further line of that text begins like a
key at the margin, the value is the only entry there, and it and its key are the only nodes inside. -/
theorem entries_of_parse (expression : String) (change : Override) (parses : parse expression = .ok change) :
    ∃ key text entries, splitEquals expression.toList = some (key, text)
      ∧ Yaml.read "<override>" (document text) = .ok (.mapping entries)
      ∧ entries.lookup valueKey = some change.value
      ∧ (hasClearMargin text = true → entries = [(valueKey, change.value)]
        ∧ ∃ node, rootNodes 0 (eventsIn (document text)) = [writtenKey.event, node]) := by
  obtain ⟨key, text, splits, reads⟩ := parseValue_of_parse parses
  obtain ⟨entries, read, found⟩ := read_of_parseValue reads
  refine ⟨key, text, entries, splits, read, found, fun clear => ?_⟩
  obtain ⟨⟨value, same⟩, nodes⟩ := single_entry_of_hasClearMargin clear read
  cases same
  rw [List.lookup_cons_self, Option.some.injEq] at found
  exact ⟨found ▸ rfl, nodes⟩

/-- Over lines of which only the first begins like a key. -/
def listText : List Char :=
  "[1, # one\n\n# two\n  2\n]".toList

theorem entries_of_parse_listText :
    parse "+a.b=[1, # one\n\n# two\n  2\n]" = .ok ⟨["a", "b"], .sequence [.int 1, .int 2], true⟩
      ∧ hasClearMargin listText = true
      ∧ Yaml.read "<override>" (document listText) = .ok (.mapping [(valueKey, .sequence [.int 1, .int 2])])
      ∧ ∃ node, rootNodes 0 (eventsIn (document listText)) = [writtenKey.event, node] := by
  have parses : parse "+a.b=[1, # one\n\n# two\n  2\n]" = .ok ⟨["a", "b"], .sequence [.int 1, .int 2], true⟩ := by decide +kernel
  have clear : hasClearMargin listText = true := by decide
  have split : splitEquals "+a.b=[1, # one\n\n# two\n  2\n]".toList = some ("+a.b".toList, listText) := by decide
  obtain ⟨key, text, entries, splits, read, -, single⟩ := entries_of_parse _ _ parses
  cases split.symm.trans splits
  obtain ⟨rfl, nodes⟩ := single clear
  exact ⟨parses, clear, read, nodes⟩

/-! ## Further entries -/

variable {more : List (String × Tree)} {lines : List Char}

theorem document_furtherEntries (scalar : value.isContainer = false) (filled : more ≠ [])
    (written : orderedText (.mapping more) = lines ++ ['\n']) :
    document ((Written.ofScalar value).chars ++ '\n' :: lines) = orderedText (.mapping ((valueKey, value) :: more)) := by
  have first := document_ofScalar scalar
  cases more with
  | nil => exact absurd rfl filled
  | cons entry more =>
    have apart : orderedText (.mapping ((valueKey, value) :: entry :: more))
        = orderedText (.mapping [(valueKey, value)]) ++ orderedText (.mapping (entry :: more)) := by
      show rowsText (_ ++ _) = rowsText (_ ++ []) ++ rowsText _
      rw [List.append_nil, rowsText, List.flatMap_append]
      rfl
    rw [apart, ← first, written]
    simp [document]

/-- Any number of entries at the margin below a scalar are dropped. -/
theorem parseValue_furtherEntries (scalar : value.isContainer = false) (filled : more ≠ [])
    (writable : (Tree.mapping ((valueKey, value) :: more)).IsWritable)
    (distinct : (Tree.mapping ((valueKey, value) :: more)).HasDistinctKeys)
    (written : orderedText (.mapping more) = lines ++ ['\n']) :
    parseValue ((Written.ofScalar value).chars ++ '\n' :: lines) = .ok value := by
  rw [parseValue, document_furtherEntries scalar filled written, read_orderedText _ writable distinct]
  rfl

/-- An entry more is dropped, and so is the first of two values. -/
theorem parse_of_two_entries :
    Yaml.read "<override>" (document "1\nb: 2".toList) = .ok (.mapping [(valueKey, .int 1), ("b", .int 2)])
      ∧ parse "a=1\nb: 2" = .ok ⟨["a"], .int 1, false⟩
      ∧ rootNodes 0 (eventsIn (document "1\nvalue: 2".toList))
        = [writtenKey.event, .scalar {} ['1'] .plain, writtenKey.event, .scalar {} ['2'] .plain]
      ∧ parse "a=1\nvalue: 2" = .ok ⟨["a"], .int 2, false⟩ := by
  decide +kernel

end Override

end LayeredConfig
