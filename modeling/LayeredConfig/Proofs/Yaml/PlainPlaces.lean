import LayeredConfig.Proofs.Yaml.LexingRows
import LayeredConfig.Proofs.Yaml.ScalarForm

/-!
# Where the plain form is taken whole

A text that stands without quotes is cut as one plain scalar wherever the canonical text has one: alone on the only line
of a document, behind the lead of an item or an entry, and before the colon of a key (`TakenWhole`). What stands around
it is arbitrary: of the state of the cutting it matters only that it is in block context and which collection is the
innermost, and of the text below only that its first line is not empty and no deeper than that collection.

`takenWhole_of_needsQuotes` says so of every text for which no quotes are asked.
-/

namespace LayeredConfig.Yaml

/-- What may stand below a value of a block collection at a column, behind some spaces: nothing, or a line that is not
empty and no deeper than the collection. -/
def Below (column spaces : Nat) (rest : List Char) : Prop :=
  rest = [] ∨ spaces ≤ column ∧ ∃ c more, rest = c :: more ∧ c ≠ ' ' ∧ isBreak c = false

/-- The place behind so many spaces of the next line, where a line feed comes after so many characters of this one. -/
def Cursor.down (cur : Cursor) (width spaces : Nat) (rest : List Char) : Cursor :=
  ⟨rest, cur.index + width + 1 + spaces, cur.line + 1, spaces⟩

theorem Cursor.down_along (cur : Cursor) (count width spaces : Nat) (line rest : List Char) :
    (cur.along count line).down width spaces rest = cur.down (count + width) spaces rest := by
  rw [Cursor.down, Cursor.down, ← Nat.add_assoc]
  rfl

namespace Lexer

variable {s : Lexer} {cur : Cursor} {indents : List Nat} {keys : Bool} {released column spaces : Nat}
  {queue : List Token} {text rest : List Char}

/-- A state of block context behind the lead of an item or entry of the collection at a column. -/
structure BehindLead (s : Lexer) (column : Nat) : Prop where
  inBlock : s.inFlow = false
  noKey : s.pending = none
  innermost : s.indents.head? = some column
  behind : column < s.cursor.column

theorem BehindLead.eq_free (behind : s.BehindLead column) :
    s = free s.cursor s.indents s.allowsKey s.released s.queue := by
  obtain ⟨cur, indents, keys, pending, outerPending, released, queue⟩ := s
  obtain ⟨inBlock, noKey, -, -⟩ := behind
  cases outerPending with
  | nil =>
    cases noKey
    rfl
  | cons => cases inBlock

theorem leastIndent_of_head (innermost : indents.head? = some column) :
    (free cur indents keys released queue).leastIndent = column + 1 := by
  cases indents with
  | nil => cases innermost
  | cons first outer =>
    cases innermost
    rfl

/-- A plain scalar behind a lead is handed out, and the cutting goes on at the line below. -/
theorem delivers_value (written : (Written.mk text false).IsSound) (innermost : indents.head? = some column)
    (deep : column < cur.column) (below : Below column spaces rest)
    (h : cur.rest = ' ' :: (text ++ '\n' :: (List.replicate spaces ' ' ++ rest))) :
    (free cur indents keys released queue).Delivers 1 (queue ++ [.scalar text .plain])
      (free (cur.down (1 + text.length) spaces rest) indents true
        (released + (queue ++ [Token.scalar text .plain]).length) []) := by
  obtain ⟨plain, begins⟩ := written.resolve_left Bool.false_ne_true
  let start := cur.along 1 (text ++ '\n' :: (List.replicate spaces ' ' ++ rest))
  have split : start.rest = text ++ '\n' :: (List.replicate spaces ' ' ++ rest) := rfl
  obtain ⟨starts, goesOn⟩ := Written.starts written split
  have moves : (free cur indents keys released queue).toToken.dropStale
      = .ok (free start indents keys released queue) := by
    rw [toToken_spaces (s := free cur indents keys released queue) 1 starts h]
    exact dropStale_free
  have least : (free start indents keys released queue).leastIndent = column + 1 := leastIndent_of_head innermost
  have deeper : (free start indents keys released queue).leastIndent ≤ start.column := by
    rw [least]
    exact Nat.succ_le_succ (Nat.le_of_lt deep)
  have other : rest.head?.all (fun c => c != ' ' && !isBreak c) = true := by
    rcases below with rfl | ⟨-, c, more, rfl, solid, noBreak⟩
    · rfl
    · simp [solid, noBreak]
  have shallow : spaces < (free start indents keys released queue).leastIndent ∨ rest = [] := by
    rw [least]
    exact below.symm.imp_left fun shallow => Nat.lt_succ_of_le shallow.1
  have delivers := delivers_of_cut (stays_free starts) goesOn (cuts_plain plain begins split other deeper shallow)
  rw [release_free, releasable_free, free_queue, List.take_length] at delivers
  rw [← Cursor.down_along]
  exact Delivers.of_toToken moves (stays_free starts) delivers

/-- A lead and a plain scalar behind it are handed out, and the cutting goes on at the line below. -/
theorem delivers_row (indents : List Nat) (released : Nat) (queue : List Token) {lead : Lead}
    (sound : lead.IsSound) (written : (Written.mk text false).IsSound) (below : Below cur.column spaces rest)
    (h : cur.rest = lead.chars ++ ' ' :: (text ++ '\n' :: (List.replicate spaces ' ' ++ rest))) :
    ∃ rounds, (free cur indents true released queue).Delivers (rounds + 1)
      (queue ++ leadTokens indents cur.column lead ++ [.scalar text .plain])
      (free (cur.down (lead.chars.length + (1 + text.length)) spaces rest) (indentsAt indents cur.column) true
        (released + (queue ++ leadTokens indents cur.column lead ++ [Token.scalar text .plain]).length) []) := by
  obtain ⟨rounds, keys, -, first⟩ := delivers_lead indents released queue sound h rfl
  have deep : cur.column < cur.column + lead.chars.length := Nat.lt_add_of_pos_right (length_lead_pos sound)
  have both := first.trans (delivers_value written (head_indentsAt indents cur.column) deep below rfl)
  rw [Cursor.down_along, List.nil_append, Nat.add_assoc, ← List.length_append, Nat.add_comm 1 rounds] at both
  exact ⟨rounds, both⟩

/-- A state comes to stand on its next token as another one, in block context and where a key may begin. -/
def ComesTo (s : Lexer) (cur : Cursor) (indents : List Nat) (released : Nat) (queue : List Token) : Prop :=
  s.toToken.dropStale = .ok (free cur indents true released queue)

theorem ComesTo.delivers {t : Lexer} {rounds : Nat} {toks : List Token} (comes : s.ComesTo cur indents released queue)
    (starts : startsToken cur.rest = true)
    (h : (free cur indents true released queue).Delivers (rounds + 1) toks t) : s.Delivers (rounds + 1) toks t :=
  h.of_toToken comes (stays_free starts)

theorem startsToken_lead {lead : Lead} (sound : lead.IsSound) (h : cur.rest = lead.chars ++ rest) :
    startsToken cur.rest = true := by
  cases lead with
  | item =>
    rw [h]
    rfl
  | entry key =>
    rw [Lead.chars, List.append_assoc] at h
    exact (Written.starts sound.1 h).1

end Lexer

/-- A text that is taken as one plain scalar wherever a canonical text has one. -/
structure TakenWhole (text : List Char) : Prop where
  /-- Alone on the line of a document. -/
  document : tokens (text ++ ['\n']) = ([.streamStart, .scalar text .plain, .streamEnd], none)
  /-- As the value of an item or entry, whatever led to that. -/
  value (s : Lexer) (column spaces : Nat) (rest : List Char) (behind : s.BehindLead column)
    (below : Below column spaces rest)
    (stands : s.cursor.rest = ' ' :: (text ++ '\n' :: (List.replicate spaces ' ' ++ rest))) :
    s.Delivers 1 (s.queue ++ [.scalar text .plain])
      (.free (s.cursor.down (1 + text.length) spaces rest) s.indents true
        (s.released + (s.queue ++ [Token.scalar text .plain]).length) [])
  /-- As the value behind a dash, or behind a key with its colon. -/
  row (s : Lexer) (cur : Cursor) (indents : List Nat) (released : Nat) (queue : List Token) (lead : Lead)
    (spaces : Nat) (rest : List Char) (comes : s.ComesTo cur indents released queue) (sound : lead.IsSound)
    (below : Below cur.column spaces rest)
    (stands : cur.rest = lead.chars ++ ' ' :: (text ++ '\n' :: (List.replicate spaces ' ' ++ rest))) :
    ∃ rounds, s.Delivers (rounds + 1) (queue ++ Lexer.leadTokens indents cur.column lead ++ [.scalar text .plain])
      (.free (cur.down (lead.chars.length + (1 + text.length)) spaces rest) (indentsAt indents cur.column) true
        (released + (queue ++ Lexer.leadTokens indents cur.column lead ++ [Token.scalar text .plain]).length) [])
  /-- As a key that is short enough, before its colon. -/
  key (s : Lexer) (cur : Cursor) (indents : List Nat) (released : Nat) (queue : List Token) (rest : List Char)
    (short : text.length ≤ keyReach) (comes : s.ComesTo cur indents released queue)
    (blank : rest.head? = some ' ' ∨ rest.head? = some '\n') (stands : cur.rest = text ++ ':' :: rest) :
    s.Delivers 2 (queue ++ Lexer.leadTokens indents cur.column (.entry ⟨text, false⟩))
      (.free (cur.along (text.length + 1) rest) (indentsAt indents cur.column) false
        (released + (queue ++ Lexer.leadTokens indents cur.column (.entry ⟨text, false⟩)).length) [])
  /-- As a key that is scanned by itself, also in flow context. -/
  scanned (inFlow : Bool) (indent : Nat) (cur : Cursor) (rest : List Char) (deep : indent ≤ cur.column + 1)
    (blank : rest.head? = some ' ' ∨ rest.head? = some '\n') (stands : cur.rest = text ++ ':' :: rest) :
    Plain.scan inFlow indent cur = ⟨text, false, cur.along text.length (':' :: rest)⟩
  /-- It is typed as a string. -/
  typed : Scalar.read text = .ok (.string (String.ofList text))

theorem isBlankOrEnd_of_head {rest : List Char} (blank : rest.head? = some ' ' ∨ rest.head? = some '\n') :
    isBlankOrEnd (rest.headD endMark) = true := by
  rcases blank with blank | blank
  all_goals
    rw [List.headD_eq_head?_getD, blank]
    rfl

theorem Scalar.IsBare.avoids {text : List Char} (bare : Scalar.IsBare text) (inFlow : Bool) :
    Plain.Avoids inFlow text := by
  intro c member
  have special := (bare.chars c member).1
  have outside : Plain.isFlowIndicator c = false := by
    simp [Scalar.isSpecial] at special
    simp [Plain.isFlowIndicator, special]
  rw [outside, Bool.and_false]

/-- A readable text for which no quotes are asked, as a value or as a key, is taken whole as a plain scalar. -/
theorem takenWhole_of_needsQuotes {text : List Char} {asKey : Bool} (readable : text.all isReadable = true)
    (unquoted : Scalar.needsQuotes text asKey = .ok false) : TakenWhole text := by
  have bare := Scalar.isBare_of_needsQuotes unquoted
  have plain := Scalar.isPlain_of_isBare bare
  have written : (Written.mk text false).IsSound := .inr ⟨plain, Scalar.beginsPlain_of_isBare bare⟩
  refine ⟨?_, ?_, ?_, ?_, ?_, bare.read⟩
  · have isCell : (Cell.scalar ⟨text, false⟩).IsSound := written
    refine tokens_cell isCell (List.all_eq_true.2 fun c member => ?_)
    rcases List.mem_append.1 member with member | member
    · exact isPrintable_of_needsEscape (bare.chars c member).2 (List.all_eq_true.1 readable c member)
    · rw [List.mem_singleton.1 member]
      rfl
  · intro s column spaces rest behind below stands
    rw [behind.eq_free] at stands ⊢
    exact Lexer.delivers_value written behind.innermost behind.behind below stands
  · intro s cur indents released queue lead spaces rest comes sound below stands
    obtain ⟨rounds, delivers⟩ := Lexer.delivers_row indents released queue sound written below stands
    exact ⟨rounds, comes.delivers (Lexer.startsToken_lead sound stands) delivers⟩
  · intro s cur indents released queue rest short comes blank stands
    have starts := (Written.starts written stands).1
    exact comes.delivers starts (Lexer.delivers_entry written short stands (isBlankOrEnd_of_head blank))
  · intro inFlow indent cur rest deep blank stands
    have stop : Plain.stops (':' :: rest) = true := by
      rw [Plain.stops, isBlankOrEnd_of_head blank]
      rfl
    exact Plain.scan_isPlain plain (bare.avoids inFlow) stop stands deep (Plain.ends_key rfl)

/-- A text like a number, with dots inside, a letter that is not of ASCII and a space before the last character. -/
def bareText : List Char := "0x1F ...é ~".toList

/-- That text is taken whole, also where a document marker stands below it. -/
theorem takenWhole_bareText :
    bareText.all isReadable = true ∧ Scalar.needsQuotes bareText false = .ok false
      ∧ tokens (bareText ++ ['\n']) = ([.streamStart, .scalar bareText .plain, .streamEnd], none)
      ∧ ∃ rounds, (Lexer.free (.start ("- ".toList ++ bareText ++ "\n---".toList)) [] true 0 []).Delivers (rounds + 1)
        [.blockSequenceStart, .blockEntry, .scalar bareText .plain]
        (.free ⟨"---".toList, 14, 1, 0⟩ [0] true 3 []) := by
  have readable : bareText.all isReadable = true := by decide
  have unquoted : Scalar.needsQuotes bareText false = .ok false := rfl
  have whole : TakenWhole bareText := takenWhole_of_needsQuotes readable unquoted
  refine ⟨readable, unquoted, whole.document, ?_⟩
  exact whole.row _ _ [] 0 [] .item 0 "---".toList (Lexer.stays_free rfl) trivial
    (.inr ⟨Nat.le_refl 0, '-', "--".toList, rfl, by decide, rfl⟩) rfl

end LayeredConfig.Yaml
