import LayeredConfig.Proofs.Yaml.Unreadable
import LayeredConfig.Yaml.Token.BlockScalar
import LayeredConfig.Yaml.Token.FlowScalar
import LayeredConfig.Yaml.Token.Plain
import LayeredConfig.Yaml.Token.Property
import Mathlib.Algebra.Group.Nat.Defs

/-!
# How far one token reaches

Each reader of a single token leaves the cursor inside the text that it was in, and where it fails, the text explains
the fault (`Scans`): only a version number of too many digits and an escape by number can be more than a refusal. The
readers of scalars give words that are legible besides (`Spells`).
-/

namespace LayeredConfig.Yaml

variable {text : List Char} {c : Cursor}

/-- A reader stays inside the text, or fails with a fault that the text explains. -/
def Scans {α : Type} (text : List Char) (outcome : Except Fault (α × Cursor)) : Prop :=
  Outcome.Meets (fun found => found.2.Inside text) (Fault.ExplainedBy text) outcome

theorem scans_malformed {α : Type} : Scans text (.error .malformed : Except Fault (α × Cursor)) :=
  Fault.malformed_explainedBy

theorem Scans.bind {α β : Type} {outcome : Except Fault (α × Cursor)} {next : α × Cursor → Except Fault β}
    {fine : β → Prop} (first : Scans text outcome)
    (rest : ∀ a c, c.Inside text → Outcome.Meets fine (Fault.ExplainedBy text) (next (a, c))) :
    Outcome.Meets fine (Fault.ExplainedBy text) (outcome >>= next) :=
  Outcome.Meets.bind first fun found inside => rest found.1 found.2 inside

/-- A reader of a scalar gives a legible word and stays inside the text, or fails with a fault that the text explains. -/
def Spells (text : List Char) (outcome : Except Fault (List Char × Cursor)) : Prop :=
  Outcome.Meets (fun found => Legible text found.1 ∧ found.2.Inside text) (Fault.ExplainedBy text) outcome

theorem spells_malformed : Spells text (.error .malformed) :=
  Fault.malformed_explainedBy

theorem Spells.bind {β : Type} {outcome : Except Fault (List Char × Cursor)}
    {next : List Char × Cursor → Except Fault β} {fine : β → Prop} (first : Spells text outcome)
    (rest : ∀ word c, Legible text word → c.Inside text →
      Outcome.Meets fine (Fault.ExplainedBy text) (next (word, c))) :
    Outcome.Meets fine (Fault.ExplainedBy text) (outcome >>= next) :=
  Outcome.Meets.bind first fun found spelled => rest found.1 found.2 spelled.1 spelled.2

/-- A token is no scalar, or a legible one that stands in the text as it is if it is plain and has no blanks. -/
def Token.StandsIn (text : List Char) (token : Token) : Prop :=
  ∀ word style, token = .scalar word style →
    Legible text word ∧ (style = .plain → (∀ ch ∈ word, isBlankOrEnd ch = false) → word <:+: text)

/-- A reader gives a token that stands in the text and stays inside it, or fails with a fault that the text explains. -/
def Finds (text : List Char) (outcome : Except Fault (Token × Cursor)) : Prop :=
  Outcome.Meets (fun found => found.1.StandsIn text ∧ found.2.Inside text) (Fault.ExplainedBy text) outcome

theorem finds_malformed : Finds text (.error .malformed) :=
  Fault.malformed_explainedBy

/-! ## Node properties and directives -/

namespace Property

theorem scans_name (inside : c.Inside text) : Scans text (name c) := by
  unfold name
  dsimp only [Cursor.takeWhile]
  split
  · exact scans_malformed
  · exact inside.next.skip _

theorem scans_escapedBytes (fuel : Nat) (inside : c.Inside text) : Scans text (escapedBytes fuel c) := by
  induction fuel generalizing c with
  | zero => exact inside
  | succ fuel ih =>
    rw [escapedBytes]
    split
    · dsimp only
      split
      · exact (ih (inside.skip 3)).bind fun _ _ after => after
      · exact scans_malformed
    · exact inside

theorem scans_escapedText (inside : c.Inside text) : Scans text (escapedText c) := by
  unfold escapedText
  refine (scans_escapedBytes _ inside).bind fun bytes c after => ?_
  dsimp only
  split
  · exact after
  · exact scans_malformed

theorem scans_uriFrom (fuel : Nat) (inside : c.Inside text) : Scans text (uriFrom fuel c) := by
  induction fuel generalizing c with
  | zero => exact inside
  | succ fuel ih =>
    unfold uriFrom
    dsimp only [Cursor.takeWhile]
    split
    · refine (scans_escapedText (inside.skip _)).bind fun _ c after => ?_
      exact (ih after).bind fun _ _ last => last
    · exact inside.skip _

theorem scans_uri (inside : c.Inside text) : Scans text (uri c) := by
  unfold uri
  split
  · exact scans_uriFrom _ inside
  · exact scans_malformed

theorem scans_handle (inside : c.Inside text) : Scans text (handle c) := by
  unfold handle
  dsimp only [Cursor.takeWhile]
  split
  · exact scans_malformed
  · split
    · exact inside.next
    · split
      · exact (inside.next.skip _).next
      · exact scans_malformed

/-- What is read is a tag, and the cursor stays inside the text. -/
theorem scans_tag (inside : c.Inside text) :
    Outcome.Meets (fun found => (∃ handle suffix, found.1 = .tag handle suffix) ∧ found.2.Inside text)
      (Fault.ExplainedBy text) (tag c) := by
  unfold tag
  -- `ends` is the check behind every form of a tag, `expand` reads what a handle is extended by
  extract_lets ends expand
  have last (handle : Option (List Char)) (suffix : List Char) {c : Cursor} (inside : c.Inside text) :
      Outcome.Meets (fun found => (∃ handle suffix, found.1 = Token.tag handle suffix) ∧ found.2.Inside text)
        (Fault.ExplainedBy text) (ends (.tag handle suffix, c)) := by
    dsimp only [ends]
    split
    · exact ⟨⟨handle, suffix, rfl⟩, inside⟩
    · exact Fault.malformed_explainedBy
  split
  · refine (scans_uri (inside.skip 2)).bind fun suffix c after => ?_
    dsimp only
    split
    · exact last _ _ after.next
    · exact Fault.malformed_explainedBy
  · split
    · exact last _ _ inside.next
    · have extended (handle : List Char) {c : Cursor} (inside : c.Inside text) :
          Outcome.Meets (fun found => (∃ handle suffix, found.1 = Token.tag handle suffix) ∧ found.2.Inside text)
            (Fault.ExplainedBy text) (expand (handle, c)) :=
        (scans_uri inside).bind fun suffix c after => last _ _ after
      split
      · exact (scans_handle inside).bind fun handle c after => extended handle after
      · exact extended _ inside.next

theorem finds_tag (inside : c.Inside text) : Finds text (tag c) := by
  refine (scans_tag inside).imp (fun found cut => ⟨fun word style same => ?_, cut.2⟩) fun _ explained => explained
  obtain ⟨handle, suffix, tagged⟩ := cut.1
  exact absurd (tagged.symm.trans same) nofun

/-! ### Directives -/

theorem scans_versionNumber (inside : c.Inside text) : Scans text (versionNumber c) := by
  unfold versionNumber
  dsimp only [Cursor.takeWhile]
  split
  · exact scans_malformed
  · split
    · next long =>
      have part : c.rest.takeWhile Char.isDigit <:+: text := inside.infix_of_front (List.takeWhile_prefix _)
      exact Fault.numeralTooLong_explainedBy ⟨_, part, List.all_takeWhile, long⟩
    · exact inside.skip _

theorem scans_version (inside : c.Inside text) : Scans text (version c) := by
  unfold version
  refine (scans_versionNumber (inside.dropWhile _)).bind fun major c after => ?_
  dsimp only
  split
  · exact scans_malformed
  · refine (scans_versionNumber after.next).bind fun minor c after => ?_
    dsimp only
    split
    · exact after
    · exact scans_malformed

theorem scans_handleDirective (inside : c.Inside text) : Scans text (handleDirective c) := by
  unfold handleDirective
  refine (scans_handle (inside.dropWhile _)).bind fun handle c after => ?_
  dsimp only
  split
  · exact scans_malformed
  · refine (scans_uri (after.dropWhile _)).bind fun expansion c after => ?_
    dsimp only
    split
    · exact after
    · exact scans_malformed

theorem finds_directive (inside : c.Inside text) : Finds text (directive c) := by
  unfold directive
  have named : (c.next.takeWhile isWordChar).2.Inside text := inside.next.takeWhile _
  generalize c.next.takeWhile isWordChar = found at named ⊢
  obtain ⟨word, c⟩ := found
  dsimp only
  have last (directive : Directive) {c : Cursor} (inside : c.Inside text) :
      Finds text (if isBreakOrEnd c.skipComment.peek then
        .ok (Token.directive directive, c.skipComment.takeBreak.2) else .error .malformed) := by
    split
    · exact ⟨nofun, inside.skipComment.takeBreak⟩
    · exact finds_malformed
  split
  · exact finds_malformed
  · split
    · exact (scans_version named).bind fun directive c after => last directive after
    · split
      · exact (scans_handleDirective named).bind fun directive c after => last directive after
      · exact last _ (named.dropWhile _)

end Property

/-! ## Quoted scalars -/

namespace FlowScalar

theorem spells_breaksFrom (fuel : Nat) (inside : c.Inside text) : Spells text (breaksFrom fuel c) := by
  induction fuel generalizing c with
  | zero => exact ⟨.nil, inside⟩
  | succ fuel ih =>
    unfold breaksFrom
    split
    · exact spells_malformed
    · dsimp only
      split
      · refine (ih (inside.dropWhile _).takeBreak).bind fun more c legible after => ?_
        exact ⟨(legible_takeBreak _).append legible, after⟩
      · exact ⟨.nil, inside.dropWhile _⟩

theorem foldl_hexDigit_lt (digits : List Char) (value : Nat) :
    digits.foldl (fun value d => 16 * value + (Text.hexDigit? d).getD 0) value < (value + 1) * 16 ^ digits.length := by
  induction digits generalizing value with
  | nil => simp
  | cons d digits ih =>
    have small : (Text.hexDigit? d).getD 0 < 16 := by
      cases digit : Text.hexDigit? d with
      | none => decide
      | some value => exact (Text.bounds_of_hexDigit? digit).1
    calc (d :: digits).foldl (fun value d => 16 * value + (Text.hexDigit? d).getD 0) value
      _ < (16 * value + (Text.hexDigit? d).getD 0 + 1) * 16 ^ digits.length := ih _
      _ ≤ (value + 1) * 16 * 16 ^ digits.length := Nat.mul_le_mul_right _ (by omega)
      _ = (value + 1) * 16 ^ (d :: digits).length := by rw [List.length_cons, Nat.pow_succ', Nat.mul_assoc]

theorem hexValue_lt (digits : List Char) : Text.hexValue digits < 16 ^ digits.length := by
  simpa [Text.hexValue] using foldl_hexDigit_lt digits 0

/-- Only eight digits can name a number beyond the last code point. -/
theorem eq_of_escapeWidth? {letter : Char} {digits : List Char} (width : escapeWidth? letter = some digits.length)
    (large : 0x10FFFF < Text.hexValue digits) : letter = 'U' ∧ digits.length = 8 := by
  have bound := hexValue_lt digits
  unfold escapeWidth? at width
  split at width
  · rw [← Option.some.inj width] at bound
    omega
  · rw [← Option.some.inj width] at bound
    omega
  · exact ⟨rfl, (Option.some.inj width).symm⟩
  · cases width

/-- A number that is refused stands in the text, and so does one that gives a character which is not readable. -/
theorem meets_ofCodePoint {letter : Char} {digits : List Char} (part : '\\' :: letter :: digits <:+: text)
    (width : escapeWidth? letter = some digits.length) (hex : digits.all Text.isHexDigit = true) :
    Outcome.Meets (fun ch => Legible text [ch]) (Fault.ExplainedBy text) (ofCodePoint (Text.hexValue digits)) := by
  cases reads : ofCodePoint (Text.hexValue digits) with
  | ok ch =>
    refine List.forall_mem_singleton.2 (.inr ?_)
    cases readable : isReadable ch with
    | true => exact .inl rfl
    | false => exact .inr ⟨letter, digits, part, width, hex, (isReadable_of_ofCodePoint reads).1 readable⟩
  | error fault =>
    unfold ofCodePoint at reads
    split at reads
    · next beyond =>
      cases reads
      obtain ⟨rfl, eight⟩ := eq_of_escapeWidth? width (by omega)
      exact fun _ => .inr ⟨digits, part, eight, hex, beyond⟩
    · next inWord =>
      split at reads
      · next large =>
        cases reads
        obtain ⟨rfl, eight⟩ := eq_of_escapeWidth? width large
        exact fun _ => .inr ⟨digits, part, eight, hex, large, Nat.not_lt.1 inWord⟩
      · split at reads <;> cases reads

/-- An escape with a letter begins with the backslash, the letter and what follows them. -/
theorem exists_rest_of_escape {letter : Char} (escaped : c.peek = '\\') (ahead : c.peekAt 1 = letter)
    (some : letter ≠ endMark) : ∃ rest, c.rest = '\\' :: letter :: rest := by
  unfold Cursor.peek at escaped
  unfold Cursor.peekAt at ahead
  match h : c.rest with
  | [] =>
    rw [h] at escaped
    cases escaped
  | [first] =>
    rw [h] at ahead
    exact absurd ahead.symm some
  | first :: second :: rest =>
    rw [h] at escaped ahead
    cases escaped
    cases ahead
    exact ⟨rest, rfl⟩

theorem spells_escape (inside : c.Inside text) (escaped : c.peek = '\\') : Spells text (escape c) := by
  unfold escape
  generalize ahead : c.peekAt 1 = letter
  dsimp only
  split
  · next simple => exact ⟨.of_readable (List.forall_mem_singleton.2 (isReadable_simpleEscape? simple)), inside.skip 2⟩
  · split
    · next width wide =>
      split
      · next form =>
        have letterStands : letter ≠ endMark := by
          rintro rfl
          cases wide
        obtain ⟨rest, front⟩ := exists_rest_of_escape escaped ahead letterStands
        rw [front] at form ⊢
        have part : '\\' :: letter :: rest.take width <:+: text := inside.infix_of_front <| by
          rw [front]
          exact List.cons_prefix_cons.2 ⟨rfl, List.cons_prefix_cons.2 ⟨rfl, List.take_prefix _ _⟩⟩
        refine Outcome.Meets.bind (meets_ofCodePoint part (wide.trans (congrArg some form.1.symm)) form.2) ?_
        exact fun _ legible => ⟨legible, inside.skip _⟩
      · exact spells_malformed
    · split
      · exact spells_breaksFrom _ inside.next.takeBreak
      · exact spells_malformed

theorem spells_solid (double : Bool) (fuel : Nat) (inside : c.Inside text) : Spells text (solid double fuel c) := by
  induction fuel generalizing c with
  | zero => exact ⟨.nil, inside⟩
  | succ fuel ih =>
    unfold solid
    dsimp only
    split
    · exact ⟨.nil, inside⟩
    · next stands =>
      -- what stands ahead is a character of the text, and goes into the word as it is where it is no escape
      have first : Legible text [c.peek] := inside.legible_peek (Bool.not_eq_true _ ▸ stands)
      have keeps {next : Cursor} (inside : next.Inside text) :
          Spells text (solid double fuel next >>= fun found => pure (c.peek :: found.1, found.2)) :=
        (ih inside).bind fun _ _ legible after => ⟨first.append legible, after⟩
      split
      · split
        · exact ⟨.nil, inside⟩
        · split
          · next backslash =>
            refine (spells_escape inside (beq_iff_eq.1 backslash)).bind fun _ c escaped after => ?_
            exact (ih after).bind fun _ _ legible last => ⟨escaped.append legible, last⟩
          · exact keeps inside.next
      · split
        · split
          · exact keeps (inside.skip 2)
          · exact ⟨.nil, inside⟩
        · exact keeps inside.next

theorem spells_gap (inside : c.Inside text) : Spells text (gap c) := by
  unfold gap
  dsimp only [Cursor.takeWhile]
  have start : ((c.takeWhile isInset).2).Inside text := inside.takeWhile _
  split
  · exact spells_malformed
  · split
    · refine (spells_breaksFrom _ start.takeBreak).bind fun breaks c legible after => ⟨.append ?_ legible, after⟩
      split
      · exact legible_takeBreak _
      · split
        · exact legible_blank (List.forall_mem_singleton.2 rfl)
        · exact .nil
    · exact ⟨inside.legible (List.takeWhile_prefix _), start⟩

theorem spells_scanFrom (double : Bool) (fuel : Nat) (inside : c.Inside text) :
    Spells text (scanFrom double fuel c) := by
  induction fuel generalizing c with
  | zero => exact spells_malformed
  | succ fuel ih =>
    unfold scanFrom
    generalize (if double = true then '"' else '\'') = quote
    refine (spells_solid double _ inside).bind fun part c legible after => ?_
    dsimp only
    split
    · exact ⟨legible, after.next⟩
    · refine (spells_gap after).bind fun between c blank after => ?_
      exact (ih after).bind fun _ _ more last => ⟨(legible.append blank).append more, last⟩

theorem spells_scan (double : Bool) (inside : c.Inside text) : Spells text (scan double c) :=
  spells_scanFrom double _ inside.next

end FlowScalar

/-! ## Block scalars -/

namespace BlockScalar

theorem scans_increment? (inside : c.Inside text) : Scans text (increment? c) := by
  unfold increment?
  split
  · split
    · exact scans_malformed
    · exact inside.next
  · exact inside

theorem scans_indicators (inside : c.Inside text) : Scans text (indicators c) := by
  unfold indicators
  -- `ends` is the check behind the sign and the digit
  extract_lets ends
  have last (header : Header) {c : Cursor} (inside : c.Inside text) : Scans text (ends (header, c)) := by
    dsimp only [ends]
    split
    · exact inside
    · exact scans_malformed
  split
  · exact (scans_increment? inside.next).bind fun increment c after => last _ after
  · refine (scans_increment? inside).bind fun increment c after => ?_
    dsimp only
    split
    · exact last _ after.next
    · exact last _ after

/-- A comment is left out inside the text. -/
theorem inside_ignoredLine (inside : c.Inside text) :
    Outcome.Meets (Cursor.Inside text) (Fault.ExplainedBy text) (ignoredLine c) := by
  unfold ignoredLine
  dsimp only
  split
  · exact inside.skipComment.takeBreak
  · exact Fault.malformed_explainedBy

theorem spells_indentationFrom (fuel : Nat) (inside : c.Inside text) :
    Legible text (indentationFrom fuel c).1 ∧ (indentationFrom fuel c).2.2.Inside text := by
  induction fuel generalizing c with
  | zero => exact ⟨.nil, inside⟩
  | succ fuel ih =>
    unfold indentationFrom
    split
    · exact ih inside.next
    · split
      · have behind := ih inside.takeBreak
        exact ⟨(legible_takeBreak c).append behind.1, behind.2⟩
      · exact ⟨.nil, inside⟩

theorem inside_skipIndent (indent fuel : Nat) (inside : c.Inside text) : (skipIndent indent fuel c).Inside text := by
  induction fuel generalizing c with
  | zero => exact inside
  | succ fuel ih =>
    unfold skipIndent
    split
    · exact ih inside.next
    · exact inside

theorem spells_breaksFrom (indent fuel : Nat) (inside : c.Inside text) :
    Legible text (breaksFrom indent fuel c).1 ∧ (breaksFrom indent fuel c).2.Inside text := by
  induction fuel generalizing c with
  | zero => exact ⟨.nil, inside⟩
  | succ fuel ih =>
    unfold breaksFrom
    dsimp only
    split
    · have behind := ih (inside_skipIndent indent indent inside).takeBreak
      exact ⟨(legible_takeBreak _).append behind.1, behind.2⟩
    · exact ⟨.nil, inside_skipIndent indent indent inside⟩

theorem spells_breaks (indent : Nat) (inside : c.Inside text) :
    Legible text (breaks indent c).1 ∧ (breaks indent c).2.Inside text :=
  spells_breaksFrom indent _ inside

theorem legible_tail (chomp : Chomp) {lineBreak breaks : List Char} (first : Legible text lineBreak)
    (others : Legible text breaks) : Legible text (tail chomp lineBreak breaks) := by
  cases chomp with
  | strip => exact .nil
  | clip => exact first
  | keep => exact first.append others

theorem spells_linesFrom (folded : Bool) (chomp : Chomp) (indent fuel : Nat) {before : List Char}
    (above : Legible text before) (inside : c.Inside text) :
    Legible text (linesFrom folded chomp indent fuel before c).1
      ∧ (linesFrom folded chomp indent fuel before c).2.Inside text := by
  induction fuel generalizing before c with
  | zero => exact ⟨.nil, inside⟩
  | succ fuel ih =>
    unfold linesFrom
    dsimp only [Cursor.takeWhile]
    split
    · have line : Legible text (before ++ c.rest.takeWhile (!isBreak ·)) :=
        above.append (inside.legible (List.takeWhile_prefix _))
      obtain ⟨between, behind⟩ := spells_breaks indent (inside.takeWhile (!isBreak ·)).takeBreak
      split
      · obtain ⟨more, last⟩ := ih between behind
        refine ⟨(line.append ?_).append more, last⟩
        split
        · split
          · exact legible_blank (List.forall_mem_singleton.2 rfl)
          · exact .nil
        · exact legible_takeBreak _
      · exact ⟨line.append (legible_tail chomp (legible_takeBreak _) between), behind⟩
    · exact ⟨legible_tail chomp .nil above, inside⟩

theorem spells_scan (folded : Bool) (least : Nat) (inside : c.Inside text) : Spells text (scan folded least c) := by
  unfold scan
  refine (scans_indicators inside.next).bind fun header c after => ?_
  refine (inside_ignoredLine after).bind fun c after => ?_
  cases written : header.increment with
  | none =>
    obtain ⟨breaks, behind⟩ := spells_indentationFrom c.rest.length after
    exact spells_linesFrom _ _ _ _ breaks behind
  | some increment =>
    obtain ⟨breaks, behind⟩ := spells_breaks (max least 1 + increment - 1) after
    exact spells_linesFrom _ _ _ _ breaks behind

end BlockScalar

/-! ## Plain scalars -/

namespace Plain

theorem isPrefix_run (inFlow : Bool) (word : List Char) : run inFlow word <+: word := by
  induction word with
  | nil => exact List.prefix_refl []
  | cons c rest ih =>
    rw [run]
    split
    · exact List.nil_prefix
    · exact List.cons_prefix_cons.2 ⟨rfl, ih⟩

/-- Everything that a gap adds to a value is blank. -/
theorem isBlankOrEnd_of_mem_breaksFrom (fuel : Nat) {breaks : List Char}
    (found : (breaksFrom fuel c).1 = some breaks) : ∀ ch ∈ breaks, isBlankOrEnd ch = true := by
  induction fuel generalizing c breaks with
  | zero =>
    cases found
    exact nofun
  | succ fuel ih =>
    unfold breaksFrom at found
    split at found
    · exact ih found
    · split at found
      · dsimp only at found
        split at found
        · cases found
        · obtain ⟨more, further, rfl⟩ := Option.map_eq_some_iff.1 found
          intro ch member
          rcases List.mem_append.1 member with member | member
          · exact isBlankOrEnd_of_mem_takeBreak member
          · exact ih further ch member
      · cases found
        exact nofun

theorem inside_breaksFrom (fuel : Nat) (inside : c.Inside text) : (breaksFrom fuel c).2.Inside text := by
  induction fuel generalizing c with
  | zero => exact inside
  | succ fuel ih =>
    unfold breaksFrom
    split
    · exact ih inside.next
    · split
      · dsimp only
        split
        · exact inside.takeBreak
        · exact ih inside.takeBreak
      · exact inside

theorem inside_gap (inside : c.Inside text) : (gap c).cursor.Inside text := by
  unfold gap
  dsimp only [Cursor.takeWhile]
  have start : ((c.takeWhile (· == ' ')).2).Inside text := inside.takeWhile _
  split
  · split
    · exact start.takeBreak
    · have behind := inside_breaksFrom (c.takeWhile (· == ' ')).2.takeBreak.2.rest.length start.takeBreak
      split
      · next found =>
        rw [Cursor.takeWhile, found] at behind
        exact behind
      · next found =>
        rw [Cursor.takeWhile, found] at behind
        exact behind
  · exact start

theorem isBlankOrEnd_of_mem_gap {ch : Char} (member : ch ∈ (gap c).text) : isBlankOrEnd ch = true := by
  unfold gap at member
  dsimp only [Cursor.takeWhile] at member
  split at member
  · split at member
    · cases member
    · split at member
      · cases member
      · next breaks after found =>
        rcases List.mem_append.1 member with member | member
        · split at member
          · exact isBlankOrEnd_of_mem_takeBreak member
          · split at member
            · cases List.mem_singleton.1 member
              decide
            · cases member
        · exact isBlankOrEnd_of_mem_breaksFrom _ (congrArg Prod.fst found) ch member
  · have space := List.all_eq_true.1 List.all_takeWhile ch member
    cases beq_iff_eq.1 space
    decide

/-- A scalar and the place behind it: that place is inside the text, the scalar is legible, and it stands in the text if
it has no blanks. -/
structure Found.StandsIn (text : List Char) (found : Found) : Prop where
  inside : found.cursor.Inside text
  legible : Legible text found.text
  stands : (∀ ch ∈ found.text, isBlankOrEnd ch = false) → found.text <:+: text

theorem standsIn_scanFrom (inFlow : Bool) (indent fuel : Nat) (crossed : Bool) (inside : c.Inside text) :
    (scanFrom inFlow indent fuel crossed c).StandsIn text := by
  induction fuel generalizing c crossed with
  | zero => exact ⟨inside, .nil, fun _ => List.nil_infix⟩
  | succ fuel ih =>
    unfold scanFrom
    dsimp only
    have front : run inFlow c.rest <:+: text := inside.infix_of_front (isPrefix_run inFlow c.rest)
    have behind : (gap (c.skip (run inFlow c.rest).length)).cursor.Inside text := inside_gap (inside.skip _)
    split
    · exact ⟨inside, .nil, fun _ => List.nil_infix⟩
    · split
      · exact ⟨behind, .of_part front, fun _ => front⟩
      · next goesOn =>
        have later := ih (gap (c.skip (run inFlow c.rest).length)).crossesLine behind
        have between : Legible text (gap (c.skip (run inFlow c.rest).length)).text :=
          legible_blank fun _ => isBlankOrEnd_of_mem_gap
        refine ⟨later.inside, ?_, fun solid => ?_⟩
        · dsimp only
          split
          · exact .of_part front
          · exact (Legible.append (.of_part front) between).append later.legible
        · dsimp only at solid ⊢
          split
          · exact front
          · next further =>
            -- the gap adds a blank, which a scalar without blanks does not have
            rw [if_neg further] at solid
            obtain ⟨ch, member⟩ : ∃ ch, ch ∈ (gap (c.skip (run inFlow c.rest).length)).text :=
              List.exists_mem_of_ne_nil _ fun empty => goesOn (by simp [empty])
            have blank := isBlankOrEnd_of_mem_gap member
            rw [solid ch (by simp [member])] at blank
            cases blank

theorem standsIn_scan (inFlow : Bool) (indent : Nat) (inside : c.Inside text) :
    (scan inFlow indent c).StandsIn text :=
  standsIn_scanFrom inFlow indent _ false inside

end Plain

end LayeredConfig.Yaml
