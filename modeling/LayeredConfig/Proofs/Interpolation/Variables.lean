import LayeredConfig.Interpolation.Template
import LayeredConfig.Text.Blank

/-!
# Settings of variables

What stands behind `oc.env:` in the body of a placeholder, said of the text alone: a setting is a name, and behind its
first comma a fallback, both without the blanks at their ends (`IsSetting`). The two texts that the body is cut into are
those of the setting: `isSetting_iff`.
-/

namespace LayeredConfig

namespace Text

/-- What is left of a text when blanks are cut off its ends, so that it neither begins nor ends with one. -/
structure Trims (text trimmed : List Char) : Prop where
  cut : ∃ front back, text = front ++ (trimmed ++ back) ∧ (∀ c ∈ front, isBlank c = true) ∧ ∀ c ∈ back, isBlank c = true
  first : ∀ c, trimmed.head? = some c → isBlank c = false
  last : ∀ c, trimmed.getLast? = some c → isBlank c = false

theorem isBlank_head?_dropWhile {text : List Char} {c : Char} (head : (text.dropWhile isBlank).head? = some c) :
    isBlank c = false := by
  have stops := List.head?_dropWhile_not isBlank text
  rw [head] at stops
  exact stops

/-- Blanks are dropped up to a text that begins with none. -/
theorem dropWhile_isBlank_append {front rest : List Char} (blank : ∀ c ∈ front, isBlank c = true)
    (first : ∀ c, rest.head? = some c → isBlank c = false) : (front ++ rest).dropWhile isBlank = rest := by
  rw [List.dropWhile_append_of_pos blank]
  cases rest with
  | nil => rfl
  | cons c rest => exact List.dropWhile_cons_of_neg (by rw [first c rfl]; decide)

theorem trims_trim (text : List Char) : Trims text (trim text) := by
  let rest := text.dropWhile isBlank
  let ends := (rest.reverse.takeWhile isBlank).reverse
  have whole : rest = trim text ++ ends := by
    show rest = (rest.reverse.dropWhile isBlank).reverse ++ (rest.reverse.takeWhile isBlank).reverse
    rw [← List.reverse_append, List.takeWhile_append_dropWhile, List.reverse_reverse]
  refine ⟨⟨text.takeWhile isBlank, ends, ?_, ?_, ?_⟩, fun c head => ?_, fun c last => ?_⟩
  · rw [← whole, List.takeWhile_append_dropWhile]
  · exact List.all_eq_true.1 List.all_takeWhile
  · exact fun c member => List.all_eq_true.1 List.all_takeWhile c (List.mem_reverse.1 member)
  · have ahead : rest.head? = some c := by rw [whole, List.head?_append, head, Option.some_or]
    exact isBlank_head?_dropWhile ahead
  · have ahead : (rest.reverse.dropWhile isBlank).head? = some c := by rwa [← List.getLast?_reverse]
    exact isBlank_head?_dropWhile ahead

theorem Trims.eq_trim {text trimmed : List Char} (trims : Trims text trimmed) : trimmed = trim text := by
  obtain ⟨⟨front, back, rfl, before, behind⟩, first, last⟩ := trims
  have behind' : ∀ c ∈ back.reverse, isBlank c = true := fun c member => behind c (List.mem_reverse.1 member)
  cases trimmed with
  | nil =>
    have allBlank : ∀ c ∈ front ++ back, isBlank c = true := List.forall_mem_append.2 ⟨before, behind⟩
    have nothing : (front ++ back ++ []).dropWhile isBlank = [] := dropWhile_isBlank_append allBlank nofun
    rw [List.append_nil] at nothing
    rw [trim, trimWhere, List.nil_append, nothing]
    rfl
  | cons c rest =>
    have starts : ∀ d, (c :: rest ++ back).head? = some d → isBlank d = false := first
    have ends : ∀ d, (c :: rest).reverse.head? = some d → isBlank d = false := fun d head =>
      last d (List.head?_reverse.symm.trans head)
    rw [trim, trimWhere, dropWhile_isBlank_append before starts, List.reverse_append,
      dropWhile_isBlank_append behind' ends, List.reverse_reverse]

end Text

namespace Interpolation

open Template

/-- The name in the setting of a variable: what stands before the first comma, trimmed. -/
def variableName (setting : List Char) : String :=
  String.ofList (Text.trim (splitComma setting).1)

/-- The fallback in the setting of a variable: what stands behind the first comma, trimmed. -/
def variableFallback (setting : List Char) : List Char :=
  Text.trim (splitComma setting).2

/-- The setting of a variable is its name, and behind the first comma a fallback, both without the blanks at their ends.
Where there is no comma the fallback is empty. -/
inductive IsSetting : List Char → String → List Char → Prop
  | alone {setting name : List Char} (noComma : ',' ∉ setting) (named : Text.Trims setting name) :
      IsSetting setting (String.ofList name) []
  | withFallback {before after name fallback : List Char} (noComma : ',' ∉ before) (named : Text.Trims before name)
      (falls : Text.Trims after fallback) : IsSetting (before ++ ',' :: after) (String.ofList name) fallback

variable {setting before after fallback : List Char} {name : String}

theorem splitComma_of_not_mem (noComma : ',' ∉ setting) : splitComma setting = (setting, []) := by
  induction setting with
  | nil => rfl
  | cons c rest ih =>
    rw [List.mem_cons, not_or] at noComma
    rw [splitComma, ih noComma.2]
    exact fun same => noComma.1 same.symm

theorem splitComma_append (noComma : ',' ∉ before) (after : List Char) :
    splitComma (before ++ ',' :: after) = (before, after) := by
  induction before with
  | nil => rfl
  | cons c before ih =>
    rw [List.mem_cons, not_or] at noComma
    rw [List.cons_append, splitComma, ih noComma.2]
    exact fun same => noComma.1 same.symm

theorem isSetting (setting : List Char) : IsSetting setting (variableName setting) (variableFallback setting) := by
  unfold variableName variableFallback
  by_cases comma : ',' ∈ setting
  · obtain ⟨before, after, rfl, noComma⟩ := List.eq_append_cons_of_mem comma
    rw [splitComma_append noComma]
    exact .withFallback noComma (Text.trims_trim before) (Text.trims_trim after)
  · rw [splitComma_of_not_mem comma]
    exact .alone comma (Text.trims_trim setting)

/-- A setting is one in one way, which is the way that it is cut. -/
theorem isSetting_iff :
    IsSetting setting name fallback ↔ name = variableName setting ∧ fallback = variableFallback setting := by
  constructor
  · intro sets
    unfold variableName variableFallback
    cases sets with
    | alone noComma named =>
      rw [splitComma_of_not_mem noComma, named.eq_trim]
      exact ⟨rfl, rfl⟩
    | withFallback noComma named falls =>
      rw [splitComma_append noComma, named.eq_trim, falls.eq_trim]
      exact ⟨rfl, rfl⟩
  · intro same
    rw [same.1, same.2]
    exact isSetting setting

/-- The fallback is the end of the setting, but for blanks. -/
theorem IsSetting.exists_fallback (sets : IsSetting setting name fallback) :
    ∃ front back, setting = front ++ (fallback ++ back) ∧ ∀ c ∈ back, Text.isBlank c = true := by
  cases sets with
  | alone => exact ⟨setting, [], by simp, List.forall_mem_nil _⟩
  | @withFallback before _ _ _ _ _ falls =>
    obtain ⟨front, back, rfl, -, blank⟩ := falls.cut
    exact ⟨before ++ ',' :: front, back, by simp, blank⟩

end Interpolation

end LayeredConfig
