import LayeredConfig.Proofs.Yaml.EventSources
import LayeredConfig.Proofs.Yaml.RoundTrip
import LayeredConfig.Proofs.Yaml.Writing

/-!
# How reading fails

Reading refuses a text with an error of the parse class, or the text holds more digits in a row than an integer may
have or an escape by number beyond the last code point: `explained_read`. The texts of plain scalars are typed only
after they have been cut, so the digits are traced back to the text through the events and the tokens. Neither of the
two can be left out: an integer numeral that is too long (`read_of_isOverlong`) and an escape between quotes whose
number is no code point (`read_escapeText`) make reading fail so, alone in a text.
-/

namespace LayeredConfig.Yaml

variable {text : List Char} {source : String}

/-- An outcome that fails only with errors that the text explains. -/
def Explained {α : Type} (text : List Char) (outcome : Except Error α) : Prop :=
  Outcome.Meets (fun _ => True) (Explains text) outcome

theorem explained_of_parse {α : Type} {error : Error} (kind : error.category = .parse) :
    Explained text (.error error : Except Error α) :=
  .inl kind

theorem Explained.bind {α β : Type} {outcome : Except Error α} {next : α → Except Error β}
    (first : Explained text outcome) (rest : ∀ a, Explained text (next a)) : Explained text (outcome >>= next) :=
  Outcome.Meets.bind first fun a _ => rest a

/-! ## Plain scalars -/

namespace Scalar

variable {word : List Char}

/-- Typing a plain scalar fails only for a numeral that is too long. -/
theorem eq_of_read_eq_error {error : Error} (fails : read word = .error error) :
    error = .numeralTooLong ∧ IsOverlong word := by
  by_cases overlong : IsOverlong word
  · rw [read_of_isOverlong overlong] at fails
    cases fails
    exact ⟨rfl, overlong⟩
  · obtain ⟨node, reads⟩ := exists_read overlong
    rw [reads] at fails
    cases fails

/-- A numeral is its sign and its digits, so that no blank stands in it. -/
theorem IsOverlong.isBlankOrEnd_of_mem (overlong : IsOverlong word) : ∀ ch ∈ word, isBlankOrEnd ch = false := by
  obtain ⟨numeral, parsed, -⟩ := overlong
  have digits := List.all_eq_true.1 (IntegerNumeral.isDigit_of_parse? parsed)
  have solid : ∀ ch ∈ (splitSign word).2, isBlankOrEnd ch = false :=
    fun ch member => isBlankOrEnd_of_isDigit (digits ch member)
  rcases splitSign_cases word with written | written | written
  · rw [written]
    exact List.forall_mem_cons.2 ⟨by decide, solid⟩
  · rw [written]
    exact List.forall_mem_cons.2 ⟨by decide, solid⟩
  · rw [written]
    exact solid

theorem IsOverlong.hasLongDigits (overlong : IsOverlong word) : HasLongDigits word := by
  obtain ⟨numeral, parsed, long⟩ := overlong
  rw [IntegerNumeral.digits_of_parse? parsed] at long
  refine ⟨(splitSign word).2, ?_, IntegerNumeral.isDigit_of_parse? parsed, long⟩
  rcases splitSign_cases word with written | written | written
  · exact written ▸ List.infix_cons List.infix_rfl
  · exact written ▸ List.infix_cons List.infix_rfl
  · exact written ▸ List.infix_rfl

/-- A plain scalar is typed, or it is a numeral that the text holds and that is too long. -/
theorem explained_read (stands : (∀ ch ∈ word, isBlankOrEnd ch = false) → word <:+: text) :
    Explained text (read word) := by
  cases outcome : read word with
  | ok node => exact trivial
  | error error =>
    obtain ⟨rfl, overlong⟩ := eq_of_read_eq_error outcome
    have part : word <:+: text := stands overlong.isBlankOrEnd_of_mem
    have exceeds : Exceeds word .numeralTooLong := overlong.hasLongDigits
    exact .inr (exceeds.mono part)

end Scalar

/-! ## The tree of a document -/

namespace Walk

variable {event : Event}

theorem explained_deliver (node : Tree) (frames : List Frame) : Explained text (deliver source node frames) := by
  unfold deliver
  split
  · exact trivial
  · exact trivial
  · exact trivial
  · split
    · exact trivial
    · exact explained_of_parse rfl

theorem explained_refuseAnchor (properties : Properties) : Explained text (refuseAnchor source properties) := by
  unfold refuseAnchor
  split
  · exact explained_of_parse rfl
  · exact trivial

theorem explained_stepInside (frames : List Frame) (stands : event.StandsIn text) :
    Explained text (stepInside source frames event) := by
  unfold stepInside
  split
  · exact explained_of_parse rfl
  · next properties word style =>
    refine (explained_refuseAnchor properties).bind fun _ => .bind ?_ fun node => explained_deliver node frames
    unfold scalarNode
    split
    · exact trivial
    · next plain =>
      simp only [Bool.or_eq_true, bne_iff_ne, not_or, Decidable.not_not] at plain
      exact Scalar.explained_read ((stands properties word style rfl).2 plain.1)
  · exact (explained_refuseAnchor _).bind fun _ => trivial
  · exact (explained_refuseAnchor _).bind fun _ => trivial
  · exact explained_deliver _ _
  · exact explained_deliver _ _
  · exact explained_of_parse rfl

theorem explained_step (walk : Walk) (stands : event.StandsIn text) : Explained text (walk.step source event) := by
  unfold step
  split
  case h_6 => exact explained_stepInside _ stands
  all_goals first | exact trivial | exact explained_of_parse rfl

theorem explained_run {fault : Fault} {events : List Event} (walk : Walk) (explained : fault.ExplainedBy text)
    (stand : ∀ event ∈ events, event.StandsIn text) : Explained text (walk.run source fault events) := by
  induction events generalizing walk with
  | nil =>
    cases walk with
    | done root => exact trivial
    | beforeStream | beforeDocument | inside | afterRoot | afterDocument => exact explained source
  | cons event rest ih =>
    rw [List.forall_mem_cons] at stand
    exact (explained_step walk stand.1).bind fun walk => ih walk stand.2

end Walk

/-- Whatever the text and its name, reading it fails with a refusal or exceeds the reader by what stands in the text. -/
theorem explained_read (source : String) (text : List Char) : Explained text (read source text) := by
  have traced := traces_events text
  exact Walk.explained_run .beforeStream traced.explainedBy_getD traced.1

/-! ## Texts that exceed the reader -/

/-- A document that is one plain scalar is read as that scalar. -/
theorem read_plain {word : List Char} (sound : Written.IsSound ⟨word, false⟩)
    (printable : word.all isPrintable = true) : read source (word ++ ['\n']) = Scalar.read word := by
  have cellPrintable : ((Cell.scalar ⟨word, false⟩).chars ++ ['\n']).all isPrintable = true := by
    rw [List.all_append, show (Cell.scalar ⟨word, false⟩).chars = word from rfl, printable]
    rfl
  have cut : tokens (word ++ ['\n']) = ([.streamStart, .scalar word .plain, .streamEnd], none) :=
    tokens_cell (show (Cell.scalar ⟨word, false⟩).IsSound from sound) cellPrintable
  have events : eventsOf [.streamStart, .scalar word .plain, .streamEnd] none
      = ([.streamStart, .documentStart, .scalar {} word .plain, .documentEnd, .streamEnd], none) := rfl
  have typed : (Walk.inside []).step source (.scalar {} word .plain)
      = Scalar.read word >>= fun node => .ok (.afterRoot node) := rfl
  unfold read
  rw [cut]
  dsimp only
  rw [events]
  unfold treeOfEvents
  rw [Walk.run_cons (w := .beforeDocument) rfl, Walk.run_cons (w := .inside []) rfl, Walk.run, typed]
  cases Scalar.read word <;> rfl

/-- An integer numeral that is too long is no text that can be read. -/
theorem read_of_isOverlong {word : List Char} (overlong : Scalar.IsOverlong word) :
    read source (word ++ ['\n']) = .error .numeralTooLong := by
  have typed := Scalar.read_of_isOverlong overlong
  obtain ⟨numeral, parsed, -⟩ := overlong
  have chars : word.all isNumeralChar = true := by
    refine all_isNumeralChar_of_splitSign (List.all_eq_true.2 fun c member => ?_)
    exact isNumeralChar_of_isDigit (List.all_eq_true.1 (IntegerNumeral.isDigit_of_parse? parsed) c member)
  have begins : Scalar.BeginsNumber word := Scalar.beginsNumber_of_parse? parsed
  rw [read_plain (Scalar.isSound_number chars begins) (Scalar.printable_number chars), typed]

namespace FlowScalar

variable {c : Cursor} {letter : Char} {digits rest : List Char}

theorem letter_of_escapeWidth? {width : Nat} (wide : escapeWidth? letter = some width) :
    simpleEscape? letter = none ∧ isSteady letter = true ∧ isPrintable letter = true := by
  unfold escapeWidth? at wide
  split at wide
  · exact ⟨rfl, rfl, rfl⟩
  · exact ⟨rfl, rfl, rfl⟩
  · exact ⟨rfl, rfl, rfl⟩
  · cases wide

/-- Skipping an escape by number leads to what stands behind its digits. -/
theorem skip_of_digits (wide : escapeWidth? letter = some digits.length) (hex : digits.all Text.isHexDigit = true)
    (front : c.rest = '\\' :: letter :: (digits ++ rest)) :
    c.skip (2 + digits.length) = c.along (2 + digits.length) rest := by
  have digitsSteady : digits.all isSteady = true :=
    List.all_eq_true.2 fun d member => (hexDigit_classes (List.all_eq_true.1 hex d member)).1
  have steady : ('\\' :: letter :: digits).all isSteady = true := by
    rw [List.all_cons, List.all_cons, (letter_of_escapeWidth? wide).2.1, digitsSteady]
    rfl
  have count : ('\\' :: letter :: digits).length = 2 + digits.length := by
    simp only [List.length_cons]
    omega
  rw [← count]
  exact Cursor.skip_append steady front

theorem escape_of_digits (wide : escapeWidth? letter = some digits.length) (hex : digits.all Text.isHexDigit = true)
    (front : c.rest = '\\' :: letter :: (digits ++ rest)) :
    escape c = (ofCodePoint (Text.hexValue digits)).map fun ch => ([ch], c.along (2 + digits.length) rest) := by
  have ahead : c.peekAt 1 = letter := Cursor.peekAt_one_of_rest front
  have taken : (c.rest.drop 2).take digits.length = digits := by
    rw [front]
    exact List.take_left
  rw [← skip_of_digits wide hex front]
  unfold escape
  simp only [ahead, (letter_of_escapeWidth? wide).1, wide, taken, hex, and_self, if_true]
  cases ofCodePoint (Text.hexValue digits) <;> rfl

theorem solid_of_quote (fuel : Nat) (closes : c.peek = '"') : solid true fuel c = .ok ([], c) := by
  cases fuel with
  | zero => rfl
  | succ fuel =>
    rw [solid]
    simp only [closes]
    rfl

/-- An escape by number in front of the closing quote is a solid part. -/
theorem solid_of_digits (wide : escapeWidth? letter = some digits.length) (hex : digits.all Text.isHexDigit = true)
    (front : c.rest = '\\' :: letter :: (digits ++ '"' :: rest)) (fuel : Nat) :
    solid true (fuel + 1) c
      = (ofCodePoint (Text.hexValue digits)).map fun ch => ([ch], c.along (2 + digits.length) ('"' :: rest)) := by
  have peek : c.peek = '\\' := Cursor.peek_of_rest front
  rw [solid]
  simp only [peek, show isBlankOrEnd '\\' = false from rfl, show ('\\' == '"') = false from rfl, beq_self_eq_true,
    Bool.false_eq_true, if_true, if_false]
  rw [escape_of_digits wide hex front]
  cases ofCodePoint (Text.hexValue digits) with
  | error fault => rfl
  | ok ch =>
    have ended : solid true fuel (c.along (2 + digits.length) ('"' :: rest)) = .ok ([], _) := solid_of_quote fuel rfl
    simp only [Except.map, bind, Except.bind, ended]
    rfl

/-- An escape by number, alone between double quotes, is read as the character that it names, or fails as its number
does. -/
theorem scan_of_digits (wide : escapeWidth? letter = some digits.length) (hex : digits.all Text.isHexDigit = true)
    (front : c.rest = '"' :: '\\' :: letter :: (digits ++ '"' :: rest)) :
    scan true c = (ofCodePoint (Text.hexValue digits)).map fun ch => ([ch], c.along (4 + digits.length) rest) := by
  let opened := c.along 1 ('\\' :: letter :: (digits ++ '"' :: rest))
  let closing := opened.along (2 + digits.length) ('"' :: rest)
  have opens : c.next = opened := Cursor.next_of_isSteady front rfl
  have closes : closing.next = c.along (4 + digits.length) rest := by
    rw [Cursor.next_of_isSteady (show closing.rest = '"' :: rest from rfl) rfl, Cursor.along_along, Cursor.along_along]
    congr 1
    omega
  have part : solid true opened.rest.length opened
      = (ofCodePoint (Text.hexValue digits)).map fun ch => ([ch], closing) :=
    solid_of_digits wide hex rfl _
  unfold scan scanFrom
  rw [opens, part]
  cases ofCodePoint (Text.hexValue digits) with
  | error fault => rfl
  | ok ch =>
    show Except.ok ([ch], closing.next) = _
    rw [closes]
    rfl

end FlowScalar

section

variable {letter : Char} {digits : List Char} {fault : Fault}

/-- An escape by number, alone between double quotes. -/
def escapeText (letter : Char) (digits : List Char) : List Char :=
  '"' :: '\\' :: letter :: (digits ++ ['"'])

theorem all_isPrintable_escapeText (wide : FlowScalar.escapeWidth? letter = some digits.length)
    (hex : digits.all Text.isHexDigit = true) : (escapeText letter digits).all isPrintable = true := by
  have inner : digits.all isPrintable = true :=
    List.all_eq_true.2 fun d member => (hexDigit_classes (List.all_eq_true.1 hex d member)).2
  have first := (FlowScalar.letter_of_escapeWidth? wide).2.2
  show (isPrintable letter && (digits ++ ['"']).all isPrintable) = true
  rw [first, List.all_append, inner]
  rfl

theorem tokens_escapeText (eight : digits.length = 8) (hex : digits.all Text.isHexDigit = true)
    (refused : FlowScalar.ofCodePoint (Text.hexValue digits) = .error fault) :
    tokens (escapeText 'U' digits) = ([.streamStart], some fault) := by
  have wide : FlowScalar.escapeWidth? 'U' = some digits.length := by
    rw [eight]
    rfl
  let start := Lexer.free (.start (escapeText 'U' digits)) [] true 0 []
  have scanned : FlowScalar.scan true (.start (escapeText 'U' digits)) = .error fault := by
    rw [FlowScalar.scan_of_digits wide hex rfl, refused]
    rfl
  have cut : start.cut.bind Lexer.dropStale = .error fault := by
    show ((FlowScalar.scan true (.start (escapeText 'U' digits))).map _ >>= _).bind _ = _
    rw [scanned]
    rfl
  have stays : start.toToken.dropStale = .ok start := Lexer.stays_free rfl
  have closed : start.closeDeeper = start := rfl
  have notEmpty : start.cursor.atEnd = false := rfl
  have run : Lexer.run ((escapeText 'U' digits).length + 1) start = ([], some fault) := by
    rw [Lexer.run_succ, stays]
    dsimp only
    rw [closed, notEmpty, cut]
    rfl
  unfold tokens
  rw [if_pos (all_isPrintable_escapeText wide hex),
    show ({ cursor := .start (escapeText 'U' digits) } : Lexer) = start from rfl, run]

/-- An escape whose number is no code point is no text that can be read. -/
theorem read_escapeText (eight : digits.length = 8) (hex : digits.all Text.isHexDigit = true)
    (large : 0x10FFFF < Text.hexValue digits) :
    read source (escapeText 'U' digits)
      = .error (if 0x7FFFFFFF < Text.hexValue digits then .codePointBeyondWord else .codePointTooLarge) := by
  have fails {fault : Fault} (refused : FlowScalar.ofCodePoint (Text.hexValue digits) = .error fault) :
      read source (escapeText 'U' digits) = .error (fault.toError source) := by
    have events : eventsOf [.streamStart] (some fault) = ([.streamStart], some fault) := rfl
    unfold read
    rw [tokens_escapeText eight hex refused]
    dsimp only
    rw [events]
    rfl
  split
  · next beyond => exact fails (if_pos beyond)
  · next inWord => exact fails ((if_neg inWord).trans (if_pos large))

end

end LayeredConfig.Yaml
