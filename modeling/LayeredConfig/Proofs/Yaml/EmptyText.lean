import LayeredConfig.Proofs.Yaml.Excess
import LayeredConfig.Proofs.Yaml.Lexing
import LayeredConfig.Proofs.Yaml.LexingRows
import LayeredConfig.Yaml.Read

/-!
# Texts without content

An `EmptyText` has nothing but spaces, comments and document markers, and `EmptyText.tokens` says that it is cut into
its markers. What is read then depends on the markers alone: without one the stream is empty, which is null; behind a
start marker stands a document whose root is an empty plain scalar, which is the empty string; and an end marker
without a start is refused.
-/

namespace LayeredConfig.Yaml

/-! ## Where a cursor stands after a move -/

namespace Cursor

variable {c : Cursor}

theorem length_skipComment (c : Cursor) : c.skipComment.rest.length ≤ c.rest.length :=
  (Cursor.Inside.here c).skipComment.suffix.length_le

section

variable {b : Char} {rest more : List Char}

theorem takeBreak_of_pair (h : c.rest = '\r' :: '\n' :: more) :
    c.takeBreak.2 = ⟨more, c.index + 1 + 1, c.line + 1, 0⟩ := by
  have second : c.next = ⟨'\n' :: more, c.index + 1, c.line, c.column + 1⟩ := by
    unfold next
    rw [h]
    rfl
  unfold takeBreak
  rw [h]
  show c.next.next = _
  rw [second]
  rfl

theorem takeBreak_of_alone (h : c.rest = b :: rest) (breaks : isBreak b = true)
    (alone : b = '\r' → ∀ more, rest ≠ '\n' :: more) : c.takeBreak.2 = c.next := by
  unfold takeBreak
  rw [h]
  split
  · next same =>
    cases same
    exact absurd rfl (alone rfl _)
  · next same =>
    cases same
    simp only [isBreak, Bool.or_eq_true] at breaks
    split
    · rfl
    · split
      · rfl
      · next plain separator =>
        simp only [Bool.or_eq_true, not_or] at plain separator
        exact absurd breaks (by simp [plain, separator])
  · next same => cases same

theorem next_of_alone (h : c.rest = b :: rest) (breaks : isBreak b = true)
    (alone : b = '\r' → ∀ more, rest ≠ '\n' :: more) : c.next = ⟨rest, c.index + 1, c.line + 1, 0⟩ := by
  have single : (b == '\r' && rest.head? == some '\n') = false := by
    rw [Bool.and_eq_false_iff, beq_eq_false_iff_ne, beq_eq_false_iff_ne]
    by_cases carriage : b = '\r'
    · refine Or.inr fun head => ?_
      obtain ⟨more, same⟩ := List.head?_eq_some_iff.1 head
      exact alone carriage more same
    · exact Or.inl carriage
  unfold next
  rw [h]
  simp [breaks, single]

/-- A line break leads to the start of a line. A line feed behind a carriage return belongs to the break. -/
theorem takeBreak_of_isBreak (h : c.rest = b :: rest) (breaks : isBreak b = true) :
    c.takeBreak.2.column = 0 ∧ 0 < c.takeBreak.2.index
      ∧ (c.takeBreak.2.rest = rest ∨ '\n' :: c.takeBreak.2.rest = rest) := by
  by_cases pair : b = '\r' ∧ ∃ more, rest = '\n' :: more
  · obtain ⟨rfl, more, rfl⟩ := pair
    rw [takeBreak_of_pair h]
    exact ⟨rfl, Nat.succ_pos _, Or.inr rfl⟩
  · have alone : b = '\r' → ∀ more, rest ≠ '\n' :: more := fun carriage more same => pair ⟨carriage, more, same⟩
    rw [takeBreak_of_alone h breaks alone, next_of_alone h breaks alone]
    exact ⟨rfl, Nat.succ_pos _, Or.inl rfl⟩

end

theorem length_takeBreak (breaks : isBreak c.peek = true) : c.takeBreak.2.rest.length < c.rest.length := by
  cases rest : c.rest with
  | nil =>
    rw [peek, rest] at breaks
    exact absurd breaks (by decide)
  | cons b more =>
    rw [peek, rest] at breaks
    obtain ⟨-, -, same | same⟩ := takeBreak_of_isBreak rest breaks
    · rw [same]
      exact Nat.lt_succ_self _
    · rw [← same, List.length_cons, List.length_cons]
      omega

end Cursor

/-! ## Lines and texts -/

/-- A line of spaces, or of spaces and a comment. -/
inductive BlankLine : List Char → Prop
  | spaces (count : Nat) : BlankLine (List.replicate count ' ')
  | comment (count : Nat) {words : List Char} (inLine : ∀ c ∈ words, isBreak c = false) :
    BlankLine (List.replicate count ' ' ++ '#' :: words)

/-- A line without content, and the markers in it: a marker may stand at its start, but no comment right behind. -/
inductive EmptyLine : List Token → List Char → Prop
  | blank {line : List Char} (blank : BlankLine line) : EmptyLine [] line
  | start {gap : List Char} (blank : BlankLine gap) (apart : gap.head? ≠ some '#') :
    EmptyLine [.documentStart] ("---".toList ++ gap)
  | stop {gap : List Char} (blank : BlankLine gap) (apart : gap.head? ≠ some '#') :
    EmptyLine [.documentEnd] ("...".toList ++ gap)

/-- A text without content, and the markers in it. -/
inductive EmptyText : List Token → List Char → Prop
  | last {marks : List Token} {line : List Char} (empty : EmptyLine marks line) : EmptyText marks line
  | next {marks more : List Token} {line text : List Char} {b : Char} (empty : EmptyLine marks line)
    (breaks : isBreak b = true) (rest : EmptyText more text) : EmptyText (marks ++ more) (line ++ b :: text)

section

variable {line tail : List Char} {c : Cursor}

theorem ne_of_isBreak {d other : Char} (breaks : isBreak d = true) (plain : isBreak other = false) : d ≠ other := by
  rintro rfl
  exact absurd breaks (by rw [plain]; exact Bool.false_ne_true)

/-- What stands behind a blank line is no character that stays in its line. -/
theorem peek_ne_of_ends (h : c.rest = tail) (ends : tail.head?.all isBreak = true) {other : Char}
    (plain : isBreak other = false) (noEnd : other ≠ endMark) : c.peek ≠ other := by
  rw [Cursor.peek, h]
  cases tail with
  | nil => exact noEnd.symm
  | cons d rest => exact ne_of_isBreak ends plain

theorem dropWhile_of_ends (ends : tail.head?.all isBreak = true) {p : Char → Bool}
    (inLine : ∀ d, isBreak d = true → p d = false) : tail.dropWhile p = tail := by
  cases tail with
  | nil => rfl
  | cons d rest =>
    refine List.dropWhile_cons_of_neg ?_
    rw [inLine d ends]
    exact Bool.false_ne_true

/-- A blank line is what moving over spaces and a comment moves over. -/
theorem rest_skipComment (blank : BlankLine line) (h : c.rest = line ++ tail)
    (ends : tail.head?.all isBreak = true) : c.skipComment.rest = tail := by
  have spaces (count : Nat) (rest : List Char) :
      (List.replicate count ' ' ++ rest).dropWhile (· == ' ') = rest.dropWhile (· == ' ') :=
    List.dropWhile_append_of_pos fun d member => by simp [List.eq_of_mem_replicate member]
  have noSpace (d : Char) (breaks : isBreak d = true) : (d == ' ') = false :=
    beq_false_of_ne (ne_of_isBreak breaks (by decide))
  unfold Cursor.skipComment
  cases blank with
  | spaces count =>
    have moved : (c.dropWhile (· == ' ')).rest = tail := by
      rw [Cursor.rest_dropWhile, h, spaces, dropWhile_of_ends ends noSpace]
    have noHash : (c.dropWhile (· == ' ')).peek ≠ '#' := peek_ne_of_ends moved ends (by decide) (by decide)
    simp only [beq_false_of_ne noHash, Bool.false_eq_true, if_false, moved]
  | @comment count words inLine =>
    have moved : (c.dropWhile (· == ' ')).rest = '#' :: words ++ tail := by
      rw [Cursor.rest_dropWhile, h, List.append_assoc, spaces]
      rfl
    have hash : (c.dropWhile (· == ' ')).peek = '#' := Cursor.peek_of_rest moved
    have all : ∀ d ∈ '#' :: words, (!isBreak d) = true := by
      refine List.forall_mem_cons.2 ⟨by decide, fun d member => ?_⟩
      rw [inLine d member, Bool.not_false]
    simp only [hash, beq_self_eq_true, if_true]
    rw [Cursor.rest_dropWhile, moved, List.dropWhile_append_of_pos all]
    exact dropWhile_of_ends ends fun d breaks => by rw [breaks, Bool.not_true]

/-- No byte order mark stands before a blank line. -/
theorem peek_ne_mark (blank : BlankLine line) (h : c.rest = line ++ tail)
    (ends : tail.head?.all isBreak = true) : c.peek ≠ '\ufeff' := by
  have spaces (count : Nat) (rest : List Char) (h : c.rest = List.replicate (count + 1) ' ' ++ rest) :
      c.peek ≠ '\ufeff' := by
    rw [Cursor.peek_of_rest h]
    decide
  cases blank with
  | spaces count =>
    cases count with
    | zero => exact peek_ne_of_ends h ends (by decide) (by decide)
    | succ count => exact spaces count tail h
  | comment count =>
    cases count with
    | zero =>
      rw [Cursor.peek_of_rest h]
      decide
    | succ count => exact spaces count _ (h.trans (List.append_assoc _ _ _))

end

namespace Lexer

variable {s t : Lexer} {cur : Cursor} {keys : Bool} {released : Nat} {queue toks : List Token}

/-- A state is cut as one that moves to the same token. -/
theorem Yields.of_sameToken (moves : s.toToken = t.toToken) (same : t.queue = s.queue)
    (shorter : t.cursor.rest.length ≤ s.cursor.rest.length) (h : t.Yields toks) : s.Yields toks := by
  intro fuel enough
  have found := h fuel (Nat.lt_of_le_of_lt shorter enough)
  cases fuel with
  | zero => exact absurd enough (Nat.not_lt_zero _)
  | succ fuel =>
    rw [run_succ, ← moves] at found
    rw [run_succ, ← same]
    exact found

/-- Moving to the next token does not depend on the fuel, if that is enough. -/
theorem skipToToken_enough {fuel fuel' : Nat} (enough : s.cursor.rest.length < fuel)
    (enough' : s.cursor.rest.length < fuel') : skipToToken fuel s = skipToToken fuel' s := by
  induction fuel generalizing s fuel' with
  | zero => exact absurd enough (Nat.not_lt_zero _)
  | succ fuel ih =>
    cases fuel' with
    | zero => exact absurd enough' (Nat.not_lt_zero _)
    | succ fuel' =>
      rw [skipToToken, skipToToken]
      split
      · next breaks =>
        refine ih ?_ ?_
        all_goals
          have := s.cursor.length_skipComment
          have := Cursor.length_takeBreak breaks
          dsimp only
          omega
      · rfl

theorem toToken_eq_skip (noMark : 0 < s.cursor.index ∨ s.cursor.peek ≠ '\ufeff') :
    s.toToken = skipToToken (s.cursor.rest.length + 1) s := by
  have unmarked : (s.cursor.index == 0 && s.cursor.peek == '\ufeff') = false := by
    rw [Bool.and_eq_false_iff, beq_eq_false_iff_ne, beq_eq_false_iff_ne]
    exact noMark.imp Nat.pos_iff_ne_zero.1 id
  unfold toToken
  simp only [unmarked, Bool.false_eq_true, if_false]

/-- A blank line that is the last leads to the end. -/
theorem toToken_lastLine {line : List Char} (blank : BlankLine line) (h : s.cursor.rest = line) :
    s.toToken = { s with cursor := s.cursor.skipComment } ∧ s.cursor.skipComment.rest = [] := by
  rw [← List.append_nil line] at h
  have ends := rest_skipComment blank h rfl
  refine ⟨?_, ends⟩
  rw [toToken_eq_skip (Or.inr (peek_ne_mark blank h rfl)), skipToToken]
  have noBreak : isBreak s.cursor.skipComment.peek = false := by
    rw [Cursor.peek, ends]
    rfl
  simp only [noBreak, Bool.false_eq_true, if_false]

/-- A blank line and the break behind it lead to the next line, where a key may begin. -/
theorem toToken_blankLine {line text : List Char} {b : Char} (blank : BlankLine line) (breaks : isBreak b = true)
    (inBlock : s.inFlow = false) (h : s.cursor.rest = line ++ b :: text) :
    ∃ c : Cursor, s.toToken = { s with cursor := c, allowsKey := true }.toToken ∧ c.column = 0
      ∧ c.rest.length < s.cursor.rest.length ∧ (c.rest = text ∨ '\n' :: c.rest = text) := by
  have ahead : ((b :: text).head?.all isBreak) = true := breaks
  have moved := rest_skipComment blank h ahead
  obtain ⟨column, index, rest⟩ := Cursor.takeBreak_of_isBreak moved breaks
  have shorter : s.cursor.skipComment.takeBreak.2.rest.length < s.cursor.rest.length :=
    Nat.lt_of_lt_of_le (Cursor.length_takeBreak (by rw [Cursor.peek, moved]; exact breaks))
      s.cursor.length_skipComment
  refine ⟨s.cursor.skipComment.takeBreak.2, ?_, column, shorter, rest⟩
  have isAhead : isBreak s.cursor.skipComment.peek = true := by
    rw [Cursor.peek, moved]
    exact breaks
  rw [toToken_eq_skip (Or.inr (peek_ne_mark blank h ahead)), skipToToken, toToken_eq_skip (Or.inl index)]
  simp only [isAhead, if_true, inBlock, Bool.not_false, Bool.or_true]
  exact skipToToken_enough shorter (Nat.lt_succ_self _)

theorem Yields.of_lastLine {line : List Char} (blank : BlankLine line) (h : cur.rest = line) :
    (free cur [] keys released queue).Yields [.streamEnd] := by
  obtain ⟨moves, ends⟩ := toToken_lastLine (s := free cur [] keys released queue) blank h
  have atEnd : (free cur.skipComment [] keys released queue).toToken = free cur.skipComment [] keys released queue :=
    toToken_of_startsToken (by rw [free_cursor, show cur.skipComment.rest = [] from ends]; rfl)
  exact Yields.of_sameToken (moves.trans atEnd.symm) rfl cur.length_skipComment (Yields.of_end ends)

theorem Yields.of_blankLine {line text : List Char} {b : Char} (blank : BlankLine line) (breaks : isBreak b = true)
    (h : cur.rest = line ++ b :: text)
    (behind : ∀ c : Cursor, c.column = 0 → (c.rest = text ∨ '\n' :: c.rest = text) →
      (free c [] true released queue).Yields toks) : (free cur [] keys released queue).Yields toks := by
  obtain ⟨c, moves, column, shorter, rest⟩ :=
    toToken_blankLine (s := free cur [] keys released queue) blank breaks rfl h
  exact Yields.of_sameToken (t := free c [] true released queue) moves rfl (Nat.le_of_lt shorter)
    (behind c column rest)

/-- The two markers of a document, by the characters that they are made of. -/
inductive Marks : Char → Token → Prop
  | start : Marks '-' .documentStart
  | stop : Marks '.' .documentEnd

/-- A document marker at the start of a line is cut. -/
theorem Yields.of_marker {ch : Char} {mark : Token} {rest : List Char} (marks : Marks ch mark)
    (margin : cur.column = 0) (h : cur.rest = ch :: ch :: ch :: rest) (apart : isBlankOrEnd (rest.headD endMark) = true)
    (behind : ∀ released, (free (cur.skip 3) [] false released []).Yields toks) :
    (free cur [] keys released queue).Yields (mark :: toks) := by
  have triple : cur.atTriple ch = true := by
    have third : cur.peekAt 3 = rest.headD endMark := by
      rw [Cursor.peekAt, h]
      cases rest <;> rfl
    rw [Cursor.atTriple, h, third, apart]
    simp
  have starts : startsToken cur.rest = true := by
    rw [h]
    cases marks <;> rfl
  have cuts : (free cur [] keys released queue).cut
      = .ok (free (cur.skip 3) [] false released (queue ++ [mark])) := by
    have boundary : (free cur [] keys released queue).cutBoundary (fun c => .ok (mark, c.skip 3))
        = .ok (free (cur.skip 3) [] false released (queue ++ [mark])) := by
      simp [cutBoundary, closeAll, closeWhile, free, inFlow, dropPending, pushAt, bind, Except.bind, pure, Except.pure]
    rw [cut_of_not_isTokenChar h (by cases marks <;> decide), ← boundary]
    cases marks with
    | start => rw [if_pos (by simp [triple, margin])]
    | stop => rw [if_neg (by simp), if_pos (by simp [triple, margin])]
  have goesOn : cur.atEnd = false := by
    rw [Cursor.atEnd, h]
    rfl
  have shorter : (cur.skip 3).rest.length < cur.rest.length := by
    rw [Cursor.rest_skip, h]
    simp only [List.drop_succ_cons, List.drop_zero, List.length_cons]
    omega
  show (free cur [] keys released queue).Yields ([mark] ++ toks)
  refine Yields.of_cut (t := free (cur.skip 3) [] false released (queue ++ [mark])) (stays_free starts) ?_ ?_ shorter
    rfl ?_
  · rw [closeDeeper_free]
    exact goesOn
  · rw [closeDeeper_free]
    show (free cur [] keys released (queue ++ [])).cut.bind dropStale = _
    rw [List.append_nil, cuts]
    rfl
  · rw [release_free]
    exact behind _

end Lexer

/-! ## The tokens of a text without content -/

open Lexer

variable {toks marks more : List Token} {line text : List Char} {cur : Cursor} {keys : Bool} {released : Nat}
  {queue : List Token}

/-- A marker that no comment stands right behind has a blank or the end behind it. -/
theorem isBlankOrEnd_of_apart {gap tail : List Char} (blank : BlankLine gap) (apart : gap.head? ≠ some '#')
    (ends : tail.head?.all isBreak = true) : isBlankOrEnd ((gap ++ tail).headD endMark) = true := by
  have behind : isBlankOrEnd (tail.headD endMark) = true := by
    cases tail with
    | nil => rfl
    | cons d rest =>
      have breaks : isBreak d = true := ends
      simp [isBlankOrEnd, isSpaceOrEnd, isBreakOrEnd, breaks]
  cases blank with
  | spaces count =>
    cases count with
    | zero => exact behind
    | succ count => rfl
  | comment count =>
    cases count with
    | zero => exact absurd rfl apart
    | succ count => rfl

/-- A line without content is cut into its markers, whatever stands behind it. -/
theorem EmptyLine.yields {tail : List Char} (empty : EmptyLine marks line) (margin : cur.column = 0)
    (h : cur.rest = line ++ tail) (ends : tail.head?.all isBreak = true)
    (behind : ∀ {gap : List Char} {c : Cursor} {keys : Bool} {released : Nat} {queue : List Token}, BlankLine gap →
      c.rest = gap ++ tail → (free c [] keys released queue).Yields toks) :
    (free cur [] keys released queue).Yields (marks ++ toks) := by
  have afterMarker {ch : Char} {gap : List Char} (rest : cur.rest = ch :: ch :: ch :: (gap ++ tail)) :
      (cur.skip 3).rest = gap ++ tail := by
    rw [Cursor.rest_skip, rest]
    rfl
  cases empty with
  | blank blank => exact behind blank h
  | start blank apart =>
    exact Yields.of_marker .start margin h (isBlankOrEnd_of_apart blank apart ends) fun _ => behind blank (afterMarker h)
  | stop blank apart =>
    exact Yields.of_marker .stop margin h (isBlankOrEnd_of_apart blank apart ends) fun _ => behind blank (afterMarker h)

/-- A line without content that begins as a line feed does has no characters and no markers. -/
theorem EmptyLine.eq_nil {rest tail : List Char} (empty : EmptyLine marks line) (h : '\n' :: rest = line ++ tail) :
    marks = [] ∧ line = [] := by
  cases empty with
  | blank blank =>
    refine ⟨rfl, ?_⟩
    cases blank with
    | spaces count =>
      cases count with
      | zero => rfl
      | succ count => cases h
    | comment count =>
      cases count with
      | zero => cases h
      | succ count => cases h
  | start => cases h
  | stop => cases h

/-- A text without content is cut into its markers. The cursor may stand behind the line feed of a break that begins
with a carriage return. -/
theorem EmptyText.yields (empty : EmptyText marks text) (margin : cur.column = 0)
    (h : cur.rest = text ∨ '\n' :: cur.rest = text) :
    (free cur [] keys released queue).Yields (marks ++ [.streamEnd]) := by
  induction empty generalizing cur keys released queue with
  | @last marks line empty =>
    have whole : line = line ++ [] := (List.append_nil line).symm
    rcases h with h | h
    · refine empty.yields margin (h.trans whole) rfl fun blank rest => ?_
      exact Yields.of_lastLine blank (rest.trans (List.append_nil _))
    · obtain ⟨-, rfl⟩ := empty.eq_nil (h.trans whole)
      cases h
  | @next marks more line text b empty breaks _ ih =>
    rcases h with h | h
    · rw [List.append_assoc]
      refine empty.yields margin h breaks fun blank rest => ?_
      exact Yields.of_blankLine blank breaks rest fun c column ahead => ih column ahead
    · obtain ⟨rfl, rfl⟩ := empty.eq_nil h
      cases h
      exact ih margin (Or.inl rfl)

theorem EmptyText.tokens (empty : EmptyText marks text) (printable : text.all isPrintable = true) :
    tokens text = (.streamStart :: (marks ++ [.streamEnd]), none) :=
  tokens_of_yields printable (empty.yields rfl (Or.inl rfl))

/-! ## What is read -/

/-- A text without content and without markers is null. -/
theorem EmptyText.read_unmarked (empty : EmptyText [] text) (printable : text.all isPrintable = true)
    (source : String) : read source text = .ok .null := by
  rw [read, empty.tokens printable]
  rfl

/-- Behind a start marker nothing is written, which is an empty plain scalar and so the empty string. -/
theorem EmptyText.read_started {ends : List Token} (empty : EmptyText (.documentStart :: ends) text)
    (single : ends = [] ∨ ends = [.documentEnd]) (printable : text.all isPrintable = true) (source : String) :
    read source text = .ok (.string "") := by
  rw [read, empty.tokens printable]
  rcases single with rfl | rfl <;> rfl

/-- An end marker that no document stands before is refused. -/
theorem EmptyText.read_stopped {ends : List Token} (empty : EmptyText (.documentEnd :: ends) text)
    (printable : text.all isPrintable = true) (source : String) : read source text = .error (.malformed source) := by
  rw [read, empty.tokens printable]
  rfl

end LayeredConfig.Yaml
