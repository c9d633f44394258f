import LayeredConfig.Logging.Configure
import LayeredConfig.Proofs.Yaml.TextLines

/-!
# The listing of a tree

A tree is listed by a record for each line of its canonical text, and no text in the tree makes a line of its own: the
records are as many as the tree has entries and items, at any depth, and their messages, put one below the other, are the
canonical text again (`listing_of_write`).
-/

namespace LayeredConfig.Logging

variable {tree : Tree} {text : List Char}

/-- Lines that each end in a line feed are the lines with line feeds between them, and one at the end. -/
theorem intercalate_append_feed {lines : List (List Char)} (some : lines ≠ []) :
    "\n".intercalate (lines.map String.ofList) ++ "\n" = String.ofList (lines.flatMap (· ++ ['\n'])) := by
  induction lines with
  | nil => exact absurd rfl some
  | cons line rest ih =>
    rw [List.flatMap_cons, String.ofList_append, String.ofList_append]
    cases rest with
    | nil => rw [List.map_singleton, String.intercalate_singleton, List.flatMap_nil, String.ofList_nil, String.append_empty]
    | cons next rest =>
      rw [← ih (List.cons_ne_nil _ _), List.map_cons, List.map_cons, String.intercalate_cons_cons, String.append_assoc]

/-- A canonical text that there is ends in a line feed. The only line boundaries in it are line feeds, so that its lines
are one for each entry and item of the tree at any depth, or one for a root without any; none is empty. The listing is its
head and a record for each of the lines, and their messages with line feeds are the text. -/
theorem listing_of_write (written : Yaml.write tree = .ok text) :
    (∃ front, text = front ++ ['\n'])
      ∧ (∀ c ∈ text, Text.isLineBoundary c = true → c = '\n')
      ∧ (Text.lines text).length = max 1 (tree.nodeCount - 1)
      ∧ (∀ line ∈ Text.lines text, line ≠ [])
      ∧ listing tree = ⟨.ok (), .debug logger "--- resolved config ---" ::
          (Text.lines text).map fun line => .debug logger (String.ofList line)⟩
      ∧ "\n".intercalate ((listing tree).log.tail.map Record.message) ++ "\n" = String.ofList text := by
  have count := Yaml.length_lines_of_write written
  have unbroken := fun line (member : line ∈ Text.lines text) => Yaml.unbroken_lines_of_write written member
  have parts := (Yaml.lines_of_write written).2
  have some : Text.lines text ≠ [] := by
    rw [← List.length_pos_iff, count]
    exact Nat.le_max_left 1 _
  have listed : listing tree = ⟨.ok (), .debug logger "--- resolved config ---" ::
      (Text.lines text).map fun line => .debug logger (String.ofList line)⟩ := by
    have all : (Text.lines text).filter (fun line => !line.isEmpty) = Text.lines text := by
      refine List.filter_eq_self.2 fun line member => ?_
      rw [Bool.not_eq_true', List.isEmpty_eq_false_iff]
      exact (unbroken line member).1
    rw [listing, written]
    simp only [liftM, monadLift, MonadLift.monadLift, bind, Logged.bind, Logged.record, Logged.of, all,
      List.singleton_append, List.nil_append]
  refine ⟨?_, fun c member boundary => ?_, count, fun line member => (unbroken line member).1, listed, ?_⟩
  · refine ⟨((Text.lines text).dropLast.flatMap (· ++ ['\n'])) ++ (Text.lines text).getLast some, ?_⟩
    rw [List.append_assoc, ← List.flatMap_singleton (· ++ ['\n']), ← List.flatMap_append, List.dropLast_concat_getLast,
      ← parts]
  · rw [parts] at member
    obtain ⟨line, line_mem, member⟩ := List.mem_flatMap.1 member
    rcases List.mem_append.1 member with inner | feed
    · exact absurd ((unbroken line line_mem).2 c inner) (by rw [boundary]; exact Bool.noConfusion)
    · exact List.mem_singleton.1 feed
  · have messages : (listing tree).log.tail.map Record.message = (Text.lines text).map String.ofList := by
      rw [listed, List.tail_cons, List.map_map]
      rfl
    rw [messages, intercalate_append_feed some, ← parts]

/-- A sequence whose texts hold line boundaries and a character that no reader takes. -/
def unrulyTree : Tree :=
  .sequence [.string "one\ntwo\u0085", .mapping [], .mapping [("x\u2028y\r", .sequence [.string "\uFFFE", .null])]]

/-- Six entries and items in six lines, none of which is broken by what stands in it. -/
theorem listing_of_write_unrulyTree :
    let text := "- \"one\\ntwo\\x85\"\n- \x7b\x7d\n-\n  \"x\\u2028y\\r\":\n    - \uFFFE\n    - null\n"
    Yaml.write unrulyTree = .ok text.toList ∧ (Text.lines text.toList).length = 6 ∧ unrulyTree.nodeCount = 7
      ∧ "\n".intercalate ((listing unrulyTree).log.tail.map Record.message) ++ "\n" = text := by
  intro text
  have written : Yaml.write unrulyTree = .ok text.toList := by decide +kernel
  have count : unrulyTree.nodeCount = 7 := by decide
  obtain ⟨-, -, lines, -, -, joined⟩ := listing_of_write written
  rw [count] at lines
  exact ⟨written, lines, count, joined.trans String.ofList_toList⟩

end LayeredConfig.Logging
