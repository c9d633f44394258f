import LayeredConfig.Proofs.Yaml.Cursor
import LayeredConfig.Yaml.Quoted
import LayeredConfig.Yaml.Token.FlowScalar
import Mathlib.Algebra.Group.Nat.Defs

/-!
# Reading the quoted form

The quoted form of a text lies on one line and reads back as that text, whatever follows it:
`FlowScalar.scan_quote`. Its characters are readable if those of the text are: `all_isPrintable_quote`.
-/

namespace LayeredConfig.Yaml

/-! ## Hexadecimal digits -/

theorem hexDigit?_digitChar {d : Nat} (h : d < 16) : Text.hexDigit? (Nat.digitChar d) = some d := by
  have all : ∀ d : Fin 16, Text.hexDigit? (Nat.digitChar d) = some d.val := by decide
  exact all ⟨d, h⟩

theorem length_hexText (width n : Nat) : (Text.hexText width n).length = width := by
  induction width generalizing n with
  | zero => rfl
  | succ width ih => simp [Text.hexText, ih]

theorem all_isHexDigit_hexText (width n : Nat) :
    (Text.hexText width n).all Text.isHexDigit = true := by
  induction width generalizing n with
  | zero => rfl
  | succ width ih =>
    have digit := hexDigit?_digitChar (Nat.mod_lt n (by decide : 0 < 16))
    simp [Text.hexText, ih, Text.isHexDigit, digit]

theorem hexValue_hexText (width n : Nat) : Text.hexValue (Text.hexText width n) = n % 16 ^ width := by
  induction width generalizing n with
  | zero => simp [Text.hexText, Text.hexValue, Nat.mod_one]
  | succ width ih =>
    have digit := hexDigit?_digitChar (Nat.mod_lt n (by decide : 0 < 16))
    have front := ih (n / 16)
    unfold Text.hexValue at front ⊢
    rw [Text.hexText, List.foldl_append, front]
    simp only [List.foldl_cons, List.foldl_nil, digit, Option.getD_some]
    rw [Nat.pow_succ, Nat.mul_comm (16 ^ width) 16, Nat.mod_mul]
    omega

theorem isHexDigit_cases {c : Char} (h : Text.isHexDigit c = true) :
    ('0' ≤ c ∧ c ≤ '9') ∨ ('a' ≤ c ∧ c ≤ 'f') ∨ ('A' ≤ c ∧ c ≤ 'F') := by
  unfold Text.isHexDigit Text.hexDigit? at h
  split at h
  · exact Or.inl ‹_›
  · split at h
    · exact Or.inr (Or.inl ‹_›)
    · split at h
      · exact Or.inr (Or.inr ‹_›)
      · cases h

/-! ## The escape of one character -/

/-- Whether a character stands for itself between double quotes. -/
def standsForItself (c : Char) : Bool :=
  c != '\\' && c != '"' && !needsEscape c

theorem escapeChar_of_standsForItself {c : Char} (h : standsForItself c = true) :
    escapeChar c = [c] := by
  simp only [standsForItself, Bool.and_eq_true, bne_iff_ne, Bool.not_eq_true'] at h
  obtain ⟨⟨backslash, quote⟩, plain⟩ := h
  have feed : c ≠ '\n' := by intro same; subst same; cases plain
  have return' : c ≠ '\r' := by intro same; subst same; cases plain
  have tab : c ≠ '\t' := by intro same; subst same; cases plain
  simp [escapeChar, backslash, quote, feed, return', tab, plain]

/-- How a character that does not stand for itself is escaped: by a letter, or by a number of two or four
digits. -/
theorem escapeChar_cases (c : Char) :
    (standsForItself c = true ∧ escapeChar c = [c]) ∨
      (∃ letter, FlowScalar.simpleEscape? letter = some c ∧ isSteady letter = true ∧
        isPrintable letter = true ∧ escapeChar c = ['\\', letter]) ∨
      ∃ letter width, FlowScalar.simpleEscape? letter = none ∧
        FlowScalar.escapeWidth? letter = some width ∧ isSteady letter = true ∧
        isPrintable letter = true ∧ c.toNat < 16 ^ width ∧
        escapeChar c = '\\' :: letter :: Text.hexText width c.toNat := by
  by_cases itself : standsForItself c = true
  · exact Or.inl ⟨itself, escapeChar_of_standsForItself itself⟩
  refine Or.inr ?_
  by_cases backslash : c = '\\'
  · exact Or.inl ⟨'\\', by subst backslash; decide⟩
  by_cases quote : c = '"'
  · exact Or.inl ⟨'"', by subst quote; decide⟩
  by_cases feed : c = '\n'
  · exact Or.inl ⟨'n', by subst feed; decide⟩
  by_cases return' : c = '\r'
  · exact Or.inl ⟨'r', by subst return'; decide⟩
  by_cases tab : c = '\t'
  · exact Or.inl ⟨'t', by subst tab; decide⟩
  have escaped : needsEscape c = true := by simpa [standsForItself, backslash, quote] using itself
  refine Or.inr ?_
  by_cases narrow : c.toNat ≤ 0xFF
  · exact ⟨'x', 2, rfl, rfl, by decide, by decide, by omega, by
      simp [escapeChar, backslash, quote, feed, return', tab, escaped, numericEscape, narrow]⟩
  · refine ⟨'u', 4, rfl, rfl, by decide, by decide, ?_, by
      simp [escapeChar, backslash, quote, feed, return', tab, escaped, numericEscape, narrow]⟩
    simp only [needsEscape, Bool.or_eq_true, Bool.and_eq_true, decide_eq_true_eq, beq_iff_eq]
      at escaped
    rcases escaped with (((low | ⟨-, high⟩) | rfl) | rfl) | rfl
    · omega
    · omega
    · decide
    · decide
    · decide

/-! ## Classes of characters -/

theorem isSteady_of_needsEscape {c : Char} (h : needsEscape c = false) : isSteady c = true := by
  rw [← Bool.not_eq_false]
  intro unsteady
  simp only [isSteady, isBreak, Bool.and_eq_false_iff, Bool.not_eq_false', Bool.or_eq_true,
    beq_iff_eq, bne_eq_false_iff_eq] at unsteady
  rcases unsteady with ((((rfl | rfl) | rfl) | rfl) | rfl) | rfl <;> cases h

theorem isBlankOrEnd_of_needsEscape {c : Char} (h : needsEscape c = false) (solid : c ≠ ' ') :
    isBlankOrEnd c = false := by
  have steady := isBreak_of_isSteady (isSteady_of_needsEscape h)
  have tab : c ≠ '\t' := by intro same; subst same; cases h
  have null : c ≠ endMark := by intro same; subst same; cases h
  rw [isBlankOrEnd_eq]
  simp [steady, tab, solid, null]

/-- Whether a text in YAML may hold a character at all, as it is or escaped by the quoted form. -/
def isReadable (c : Char) : Bool :=
  c != '\ufffe' && c != '\uffff'

theorem isReadable_of_isPrintable {c : Char} (printable : isPrintable c = true) : isReadable c = true := by
  rw [← Bool.not_eq_false, isReadable, Bool.and_eq_false_iff, bne_eq_false_iff_eq, bne_eq_false_iff_eq]
  rintro (rfl | rfl) <;> cases printable

theorem isPrintable_of_needsEscape {c : Char} (h : needsEscape c = false)
    (readable : isReadable c = true) : isPrintable c = true := by
  simp only [isReadable, Bool.and_eq_true, bne_iff_ne, ne_eq, ← Char.toNat_inj] at readable
  simp only [needsEscape, Bool.or_eq_false_iff, Bool.and_eq_false_iff, decide_eq_false_iff_not]
    at h
  have first : c.toNat ≠ 0xFFFE := readable.1
  have second : c.toNat ≠ 0xFFFF := readable.2
  have valid : c.toNat < 0xD800 ∨ 0xDFFF < c.toNat ∧ c.toNat < 0x110000 := c.valid
  simp only [isPrintable, Bool.or_eq_true, Bool.and_eq_true, decide_eq_true_eq]
  omega

theorem hexDigit_classes {c : Char} (h : Text.isHexDigit c = true) :
    isSteady c = true ∧ isPrintable c = true := by
  have range : 0x30 ≤ c.toNat ∧ c.toNat ≤ 0x66 := by
    rcases isHexDigit_cases h with range | range | range
    · have low : 0x30 ≤ c.toNat := range.1
      have high : c.toNat ≤ 0x39 := range.2
      omega
    · have low : 0x61 ≤ c.toNat := range.1
      have high : c.toNat ≤ 0x66 := range.2
      omega
    · have low : 0x41 ≤ c.toNat := range.1
      have high : c.toNat ≤ 0x46 := range.2
      omega
  have plain : needsEscape c = false := by
    simp only [needsEscape, Bool.or_eq_false_iff, Bool.and_eq_false_iff,
      decide_eq_false_iff_not, beq_eq_false_iff_ne, ne_eq, ← Char.toNat_inj]
    simp only [Char.reduceToNat]
    omega
  refine ⟨isSteady_of_needsEscape plain, isPrintable_of_needsEscape plain ?_⟩
  simp only [isReadable, Bool.and_eq_true, bne_iff_ne, ne_eq, ← Char.toNat_inj]
  simp only [Char.reduceToNat]
  omega

/-- The escape of a character lies on one line. -/
theorem all_isSteady_escapeChar (c : Char) : (escapeChar c).all isSteady = true := by
  rcases escapeChar_cases c with ⟨itself, escape⟩ | ⟨letter, -, steady, -, escape⟩ |
    ⟨letter, width, -, -, steady, -, -, escape⟩
  · simp only [standsForItself, Bool.and_eq_true, Bool.not_eq_true'] at itself
    simp [escape, isSteady_of_needsEscape itself.2]
  · simp [escape, steady, show isSteady '\\' = true from by decide]
  · have digits := all_isHexDigit_hexText width c.toNat
    rw [List.all_eq_true] at digits
    have all : (Text.hexText width c.toNat).all isSteady = true :=
      List.all_eq_true.2 fun d member => (hexDigit_classes (digits d member)).1
    simp [escape, steady, all, show isSteady '\\' = true from by decide]

theorem all_isPrintable_escapeChar {c : Char} (readable : isReadable c = true) :
    (escapeChar c).all isPrintable = true := by
  rcases escapeChar_cases c with ⟨itself, escape⟩ | ⟨letter, -, -, printable, escape⟩ |
    ⟨letter, width, -, -, -, printable, -, escape⟩
  · simp only [standsForItself, Bool.and_eq_true, Bool.not_eq_true'] at itself
    simp [escape, isPrintable_of_needsEscape itself.2 readable]
  · simp [escape, printable, show isPrintable '\\' = true from by decide]
  · have digits := all_isHexDigit_hexText width c.toNat
    rw [List.all_eq_true] at digits
    have all : (Text.hexText width c.toNat).all isPrintable = true :=
      List.all_eq_true.2 fun d member => (hexDigit_classes (digits d member)).2
    simp [escape, printable, all, show isPrintable '\\' = true from by decide]

theorem all_isPrintable_quote {text : List Char} (readable : text.all isReadable = true) :
    (quote text).all isPrintable = true := by
  rw [List.all_eq_true] at readable
  have body : (text.flatMap escapeChar).all isPrintable = true := by
    rw [List.all_flatMap]
    exact List.all_eq_true.2 fun c member => all_isPrintable_escapeChar (readable c member)
  simp [quote, body, show isPrintable '"' = true from by decide]

/-! ## Reading -/

namespace FlowScalar

variable {cur : Cursor} {rest : List Char}

theorem ofCodePoint_toNat (c : Char) : ofCodePoint c.toNat = .ok c := by
  have valid : c.toNat < 0xD800 ∨ 0xDFFF < c.toNat ∧ c.toNat < 0x110000 := c.valid
  have noSurrogate : ¬isSurrogate c.toNat = true := by
    simp only [isSurrogate, Bool.and_eq_true, decide_eq_true_eq]
    omega
  unfold ofCodePoint
  rw [if_neg (by omega), if_neg (by omega), if_neg noSurrogate, Char.ofNat_toNat]

/-- An escape is read as the character that it stands for. -/
theorem escape_escapeChar {c : Char} (escaped : standsForItself c = false)
    (h : cur.rest = escapeChar c ++ rest) :
    escape cur = .ok ([c], cur.along (escapeChar c).length rest) := by
  have whole := Cursor.skip_append (all_isSteady_escapeChar c) h
  rcases escapeChar_cases c with ⟨itself, -⟩ | ⟨letter, simple, -, -, same⟩ |
    ⟨letter, width, noSimple, numeric, -, -, small, same⟩
  · rw [escaped] at itself
    cases itself
  · rw [same] at whole h ⊢
    have next : cur.peekAt 1 = letter := Cursor.peekAt_one_of_rest h
    simp only [escape, next, simple]
    exact congrArg (fun place => Except.ok ([c], place)) whole
  · rw [same] at whole h ⊢
    have next : cur.peekAt 1 = letter := Cursor.peekAt_one_of_rest h
    have digits : (cur.rest.drop 2).take width = Text.hexText width c.toNat := by
      rw [h]
      simp only [List.cons_append, List.drop_succ_cons, List.drop_zero]
      rw [List.take_left' (length_hexText width _)]
    have value : Text.hexValue (Text.hexText width c.toNat) = c.toNat := by
      rw [hexValue_hexText, Nat.mod_eq_of_lt small]
    have width' : ('\\' :: letter :: Text.hexText width c.toNat).length = 2 + width := by
      simp only [List.length_cons, length_hexText]
      omega
    rw [width'] at whole ⊢
    simp only [escape, next, noSimple, numeric, digits, length_hexText, all_isHexDigit_hexText,
      value, ofCodePoint_toNat, whole, and_self, if_true]
    rfl

/-- A character that is no space is read together with the solid part behind it. -/
theorem solid_escapeChar {c : Char} (solid' : c ≠ ' ') (fuel : Nat)
    (h : cur.rest = escapeChar c ++ rest) :
    solid true (fuel + 1) cur
      = (solid true fuel (cur.along (escapeChar c).length rest)).map fun (more, place) =>
          (c :: more, place) := by
  by_cases itself : standsForItself c = true
  · rw [escapeChar_of_standsForItself itself] at h ⊢
    simp only [standsForItself, Bool.and_eq_true, bne_iff_ne, Bool.not_eq_true'] at itself
    obtain ⟨⟨backslash, quote⟩, plain⟩ := itself
    have peek : cur.peek = c := Cursor.peek_of_rest h
    have blank : isBlankOrEnd c = false := isBlankOrEnd_of_needsEscape plain solid'
    have step : cur.next = cur.along 1 rest :=
      Cursor.next_of_isSteady h (isSteady_of_needsEscape plain)
    rw [solid]
    simp only [peek, blank, step, backslash, quote, beq_iff_eq, if_true, if_false,
      Bool.false_eq_true, List.length_singleton]
    cases solid true fuel (cur.along 1 rest) <;> rfl
  · rw [Bool.not_eq_true] at itself
    have read := escape_escapeChar itself h
    have peek : cur.peek = '\\' := by
      rcases escapeChar_cases c with ⟨other, -⟩ | ⟨_, -, -, -, same⟩ | ⟨_, _, -, -, -, -, -, same⟩
      · rw [itself] at other
        cases other
      · exact Cursor.peek_of_rest (by rw [h, same]; rfl)
      · exact Cursor.peek_of_rest (by rw [h, same]; rfl)
    rw [solid]
    simp only [peek, read, show isBlankOrEnd '\\' = false from by decide, if_true,
      Bool.false_eq_true, if_false, show ('\\' == '"') = false from by decide,
      show ('\\' == '\\') = true from by decide, bind, Except.bind]
    cases solid true fuel (cur.along (escapeChar c).length rest) <;> rfl

/-- A part without spaces is read up to the space or the quote behind it. -/
theorem solid_part {part : List Char} (noSpace : ∀ c ∈ part, c ≠ ' ')
    (ends : rest.head? = some ' ' ∨ rest.head? = some '"') {fuel : Nat} (enough : part.length < fuel)
    (h : cur.rest = part.flatMap escapeChar ++ rest) :
    solid true fuel cur = .ok (part, cur.along (part.flatMap escapeChar).length rest) := by
  induction part generalizing cur fuel with
  | nil =>
    obtain ⟨fuel, rfl⟩ := Nat.exists_eq_succ_of_ne_zero (Nat.ne_of_gt enough)
    have stay : cur.along 0 rest = cur := Cursor.along_zero h
    have peek : cur.peek = ' ' ∨ cur.peek = '"' := by
      cases rest with
      | nil => simp at ends
      | cons ch more =>
        rw [Cursor.peek_of_rest h]
        simpa using ends
    rw [solid]
    simp only [List.flatMap_nil, List.length_nil, stay]
    rcases peek with space | quote
    · rw [space, show isBlankOrEnd ' ' = true from by decide, if_pos rfl]
    · rw [quote, show isBlankOrEnd '"' = false from by decide]
      rfl
  | cons c part ih =>
    obtain ⟨fuel, rfl⟩ := Nat.exists_eq_succ_of_ne_zero (Nat.ne_of_gt (Nat.zero_lt_of_lt enough))
    rw [List.flatMap_cons, List.append_assoc] at h
    rw [solid_escapeChar (noSpace c (by simp)) fuel h,
      ih (fun d member => noSpace d (by simp [member])) (by simpa using enough) rfl]
    simp [Except.map, List.flatMap_cons]

/-- A run of spaces before something else is read as it is. -/
theorem gap_spaces {count : Nat} {ch : Char} {more : List Char} (other : isInset ch = false)
    (noBreak : isBreak ch = false) (h : cur.rest = List.replicate count ' ' ++ ch :: more) :
    gap cur = .ok (List.replicate count ' ', cur.along count (ch :: more)) := by
  have taken := Cursor.takeWhile_append (p := isInset) (List.replicate count ' ')
    (by simp [isInset]) (by simp [other]) (by simp [isSteady_space]) h
  rw [List.length_replicate] at taken
  unfold gap
  rw [taken]
  simp [Cursor.atEnd, Cursor.peek, noBreak]

theorem head_escapeChar {c : Char} (solid' : c ≠ ' ') :
    ∃ ch more, escapeChar c = ch :: more ∧ isInset ch = false ∧ isBreak ch = false := by
  rcases escapeChar_cases c with ⟨itself, same⟩ | ⟨letter, -, -, -, same⟩ |
    ⟨letter, width, -, -, -, -, -, same⟩
  · simp only [standsForItself, Bool.and_eq_true, Bool.not_eq_true'] at itself
    have tab : c ≠ '\t' := by intro same; subst same; cases itself.2
    exact ⟨c, [], same, by simp [isInset, solid', tab],
      isBreak_of_isSteady (isSteady_of_needsEscape itself.2)⟩
  · exact ⟨'\\', _, same, by decide, by decide⟩
  · exact ⟨'\\', _, same, by decide, by decide⟩

theorem length_le_length_flatMap_escapeChar (text : List Char) :
    text.length ≤ (text.flatMap escapeChar).length := by
  induction text with
  | nil => exact Nat.le_refl _
  | cons c text ih =>
    have one : 1 ≤ (escapeChar c).length := by
      rcases escapeChar_cases c with ⟨-, same⟩ | ⟨_, -, -, -, same⟩ | ⟨_, _, -, -, -, -, -, same⟩
      all_goals
        rw [same]
        exact Nat.succ_le_succ (Nat.zero_le _)
    rw [List.flatMap_cons, List.length_append, List.length_cons]
    omega

theorem flatMap_escapeChar_spaces (count : Nat) :
    (List.replicate count ' ').flatMap escapeChar = List.replicate count ' ' := by
  induction count with
  | zero => rfl
  | succ count ih =>
    rw [List.replicate_succ, List.flatMap_cons, ih]
    rfl

/-- Behind a run of spaces stands a character that is neither an inset nor a break. -/
theorem exists_head_escaped {more : List Char} (rest : List Char) (begins : more.head? ≠ some ' ') :
    ∃ ch tail, more.flatMap escapeChar ++ '"' :: rest = ch :: tail ∧ isInset ch = false ∧
      isBreak ch = false := by
  cases more with
  | nil => exact ⟨'"', rest, rfl, by decide, by decide⟩
  | cons c more =>
    obtain ⟨ch, tail, same, other, noBreak⟩ := head_escapeChar (c := c) fun space =>
      begins (by rw [space]; rfl)
    exact ⟨ch, _, by rw [List.flatMap_cons, same]; rfl, other, noBreak⟩

/-- Escaped characters up to the closing quote are read as the characters that they stand for. -/
theorem scanFrom_escaped {fuel : Nat} {text : List Char} (enough : text.length < fuel)
    (h : cur.rest = text.flatMap escapeChar ++ '"' :: rest) :
    scanFrom true fuel cur = .ok (text, cur.along ((text.flatMap escapeChar).length + 1) rest) := by
  induction fuel generalizing text cur with
  | zero => exact absurd enough (Nat.not_lt_zero _)
  | succ fuel ih =>
    obtain ⟨part, count, more, rfl, noSpace, gapped, begins⟩ := exists_split_at_spaces text
    simp only [List.flatMap_append, flatMap_escapeChar_spaces, List.append_assoc] at h ⊢
    have long : part.length < cur.rest.length := by
      have := length_le_length_flatMap_escapeChar part
      rw [h]
      simp only [List.length_append, List.length_cons]
      omega
    rw [scanFrom]
    cases count with
    | zero =>
      have none : more = [] :=
        Decidable.byContradiction fun some => absurd (gapped some) (Nat.lt_irrefl 0)
      subst none
      have read := solid_part noSpace (Or.inr (rfl : ('"' :: rest).head? = some '"')) long h
      have close : (cur.along (part.flatMap escapeChar).length ('"' :: rest)).next
          = (cur.along (part.flatMap escapeChar).length ('"' :: rest)).along 1 rest :=
        Cursor.next_of_isSteady rfl (by decide)
      rw [read]
      simp only [bind, Except.bind, pure, Except.pure, close, Cursor.along_along]
      simp [Cursor.peek]
    | succ count =>
      obtain ⟨ch, tail, same, other, noBreak⟩ := exists_head_escaped rest begins
      rw [same] at h
      have toGap : (List.replicate (count + 1) ' ' ++ ch :: tail).head? = some ' ' := rfl
      rw [solid_part noSpace (Or.inl toGap) long h]
      have overGap : gap (cur.along (part.flatMap escapeChar).length
          (List.replicate (count + 1) ' ' ++ ch :: tail))
          = .ok (List.replicate (count + 1) ' ', (cur.along (part.flatMap escapeChar).length
            (List.replicate (count + 1) ' ' ++ ch :: tail)).along (count + 1) (ch :: tail)) :=
        gap_spaces other noBreak rfl
      have shorter : more.length < fuel := by
        simp only [List.length_append, List.length_replicate] at enough
        omega
      have behind : scanFrom true fuel ((cur.along (part.flatMap escapeChar).length
          (List.replicate (count + 1) ' ' ++ ch :: tail)).along (count + 1) (ch :: tail))
          = .ok (more, _) := ih shorter same.symm
      have noQuote : ((cur.along (part.flatMap escapeChar).length
          (List.replicate (count + 1) ' ' ++ ch :: tail)).peek == '"') = false := rfl
      simp only [bind, Except.bind, pure, Except.pure, if_true, noQuote, Bool.false_eq_true,
        if_false, overGap, behind]
      simp only [Cursor.along_along, List.length_append, List.length_replicate, List.append_assoc,
        Nat.add_assoc]

/-- The quoted form of a text is read as that text, and nothing behind it is touched. -/
theorem scan_quote {text : List Char} (h : cur.rest = quote text ++ rest) :
    scan true cur = .ok (text, cur.along (quote text).length rest) := by
  have inside : cur.rest = '"' :: (text.flatMap escapeChar ++ '"' :: rest) := by
    rw [h]
    simp [quote]
  have long : text.length < cur.rest.length + 1 := by
    have := length_le_length_flatMap_escapeChar text
    rw [inside]
    simp only [List.length_cons, List.length_append]
    omega
  unfold scan
  rw [Cursor.next_of_isSteady inside (by decide), scanFrom_escaped long rfl, Cursor.along_along]
  simp [quote, Nat.add_comm]

end FlowScalar

end LayeredConfig.Yaml
