import LayeredConfig.Proofs.Override.Stopped
import LayeredConfig.Proofs.Yaml.Failures

/-!
# How overrides fail

Applying overrides fails with a configuration error, or one of the expressions holds what exceeds the reader:
`failure_of_override`. The value text of an override is read inside a document of its own, so that what such a document
holds is traced back to the expression.
-/

namespace LayeredConfig

namespace Override

open Yaml (Exceeds Explained Explains)

variable {text word : List Char} {c : Char} {error : Error}

/-- A word of the document for a value text stands in that text, if the document does not bring it along. -/
theorem infix_of_document (part : c :: word <:+: document text) (begins : c ∉ "value: ".toList)
    (stays : '\n' ∉ c :: word) : c :: word <:+: text := by
  have inner : c :: word <:+: "value: ".toList ++ text := Yaml.infix_of_infix_concat part stays
  exact Yaml.infix_of_infix_append inner begins

theorem exceeds_of_document (exceeds : Exceeds (document text) error) : Exceeds text error := by
  cases error with
  | numeralTooLong =>
    obtain ⟨digits, part, all, long⟩ := exceeds
    cases digits with
    | nil => cases long
    | cons d digits =>
      have digit := List.all_eq_true.1 all
      have noDigits : "value: ".toList.all (!Char.isDigit ·) = true := rfl
      have begins : d ∉ "value: ".toList := by
        intro member
        have other := List.all_eq_true.1 noDigits d member
        rw [digit d List.mem_cons_self] at other
        cases other
      have stays : '\n' ∉ d :: digits := fun member => absurd (digit '\n' member) (by decide)
      exact ⟨d :: digits, infix_of_document part begins stays, all, long⟩
  | codePointTooLarge | codePointBeyondWord =>
    obtain ⟨digits, part, eight, hex, number⟩ := exceeds
    have inDigits : '\n' ∉ digits := fun member => absurd (List.all_eq_true.1 hex '\n' member) (by decide)
    have stays : '\n' ∉ '\\' :: 'U' :: digits := by simp [inDigits]
    exact ⟨digits, infix_of_document part (by decide) stays, eight, hex, number⟩
  | _ => cases exceeds

theorem explained_parseValue (text : List Char) : Explained text (parseValue text) := by
  have read : Explained text (Yaml.read "<override>" (document text)) :=
    (Yaml.explained_read "<override>" (document text)).imp (fun _ good => good) fun _ explains =>
      explains.imp id exceeds_of_document
  refine read.bind fun tree => ?_
  split
  · split
    · exact trivial
    · exact Yaml.explained_of_parse rfl
  · exact Yaml.explained_of_parse rfl

theorem suffix_of_splitEquals {body key value : List Char} (splits : splitEquals body = some (key, value)) :
    value <:+ body := by
  fun_induction splitEquals body generalizing key with
  | case1 => cases splits
  | case2 rest =>
    cases splits
    exact List.suffix_cons '=' value
  | case3 c rest _ ih =>
    obtain ⟨⟨key', value'⟩, found, same⟩ := Option.map_eq_some_iff.1 splits
    cases same
    exact (ih found).trans (List.suffix_cons c rest)

theorem explained_parseBody {expression : String} {body : List Char} (add : Bool) (part : body <:+: expression.toList) :
    Explained expression.toList (parseBody expression add body) := by
  unfold parseBody
  split
  · exact Yaml.explained_of_parse rfl
  · exact Yaml.explained_of_parse rfl
  · exact Yaml.explained_of_parse rfl
  · next key value _ _ splits =>
    have inside : value <:+: expression.toList := (suffix_of_splitEquals splits).isInfix.trans part
    have path : Explained expression.toList (KeyPath.parse (String.ofList key)) := by
      cases parsed : KeyPath.parse (String.ofList key) with
      | ok path => exact trivial
      | error error => exact Yaml.explained_of_parse (KeyPath.category_of_parse parsed)
    have read : Explained expression.toList (parseValue value) :=
      (explained_parseValue value).imp (fun _ good => good) fun _ explains => explains.imp id (·.mono inside)
    exact path.bind fun _ => read.bind fun _ => trivial

/-- An override is refused, or it holds what exceeds the reader. -/
theorem explained_parse (expression : String) : Explained expression.toList (parse expression) := by
  unfold parse
  split
  · exact Yaml.explained_of_parse rfl
  · exact Yaml.explained_of_parse rfl
  · next body _ whole => exact explained_parseBody true (whole ▸ (List.suffix_cons '+' body).isInfix)
  · exact explained_parseBody false List.infix_rfl

end Override

/-- Overrides fail with a configuration error, or one of them holds what exceeds the reader. -/
theorem Tree.failure_of_override {tree : Tree} {overrides : List String} {error : Error}
    (fails : (tree.override overrides).failure = some error) :
    error.category.isConfiguration = true ∨ ∃ expression ∈ overrides, Yaml.Exceeds expression.toList error := by
  obtain ⟨front, expression, back, before, rfl, -, refuses, -⟩ := stopped_override fails
  cases refuses with
  | unread unreadable =>
    have explained := Override.explained_parse expression
    rw [unreadable] at explained
    rcases explained with kind | exceeds
    · exact .inl (by rw [kind]; rfl)
    · exact .inr ⟨expression, List.mem_append_right _ List.mem_cons_self, exceeds⟩
  | undone _ failed =>
    rcases category_of_assign failed with kind | kind | kind
    all_goals exact .inl (by rw [kind]; rfl)

end LayeredConfig
