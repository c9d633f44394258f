import LayeredConfig.Proofs.Yaml.Rows
import LayeredConfig.Yaml.Token.Stream

/-!
# Cutting rows into tokens

`Lexer.Gives s tokens` says that a state is cut into exactly these tokens, whatever fuel is left, and `Lexer.Delivers`
that it hands out tokens and goes on as another state. One lemma for each kind of token says what cutting it does, and
from them it follows by induction on the rows that sound rows are cut into `rowTokens`. A key of a row is pending until
its colon comes; a pending key of a cell is dropped at the end of its line.
-/

namespace LayeredConfig.Yaml

/-! ## What stands at the start of a row -/

/-- Whether a text begins with something that no move to the next token goes over. -/
def startsToken (text : List Char) : Bool :=
  text.head?.all fun c => c != ' ' && c != '#' && isSteady c

namespace Written

theorem exists_head {written : Written} (sound : written.IsSound) (rest : List Char) :
    ∃ c more, written.chars ++ rest = c :: more ∧ startsToken (c :: more) = true := by
  rcases written with ⟨text, quoted⟩
  cases quoted with
  | true => exact ⟨'"', _, rfl, rfl⟩
  | false =>
    obtain ⟨plain, -⟩ := sound.resolve_left Bool.false_ne_true
    cases text with
    | nil => exact absurd rfl plain.nonempty
    | cons c text =>
      have chars := plain.chars c (by simp)
      have space : c ≠ ' ' := fun same => plain.begins (by simp [same])
      simp only [isPlainChar, Bool.and_eq_true, bne_iff_ne] at chars
      exact ⟨c, text ++ rest, rfl, by simp [startsToken, space, chars.1.2, chars.2]⟩

/-- A place before a written scalar stands on a token. -/
theorem starts {written : Written} (sound : written.IsSound) {cur : Cursor} {rest : List Char}
    (h : cur.rest = written.chars ++ rest) : startsToken cur.rest = true ∧ cur.atEnd = false := by
  obtain ⟨c, more, head, starts⟩ := exists_head sound rest
  rw [← head, ← h] at starts
  refine ⟨starts, ?_⟩
  unfold Cursor.atEnd
  rw [h, head]
  rfl

theorem length_chars_pos {written : Written} (sound : written.IsSound) : 0 < written.chars.length := by
  rcases written with ⟨text, quoted⟩
  cases quoted with
  | true => exact Nat.zero_lt_succ _
  | false => exact List.length_pos_iff.2 (sound.resolve_left Bool.false_ne_true).1.nonempty

end Written

theorem isPrefixOf_triple {ch : Char} {text rest : List Char} (other : rest.head? ≠ some ch)
    (marked : [ch, ch, ch].isPrefixOf (text ++ rest) = true) :
    [ch, ch, ch].isPrefixOf text = true := by
  have notHead (count : Nat) : (List.replicate (count + 1) ch).isPrefixOf rest = false := by
    cases rest with
    | nil => rfl
    | cons c rest =>
      have differs : (ch == c) = false := by
        rw [beq_eq_false_iff_ne]
        intro same
        subst same
        exact other rfl
      rw [List.replicate_succ, List.isPrefixOf_cons_cons, differs, Bool.false_and]
  rcases text with _ | ⟨a, _ | ⟨b, _ | ⟨c, text⟩⟩⟩
  · exact absurd (marked.symm.trans (notHead 2)) (by decide)
  · simp only [List.cons_append, List.nil_append, List.isPrefixOf_cons_cons, Bool.and_eq_true] at marked
    exact absurd (marked.2.symm.trans (notHead 1)) (by decide)
  · simp only [List.cons_append, List.nil_append, List.isPrefixOf_cons_cons, Bool.and_eq_true] at marked
    exact absurd (marked.2.2.symm.trans (notHead 0)) (by decide)
  · simpa using marked

/-- No document marker begins with a scalar that begins a plain one. -/
theorem atTriple_of_beginsPlain {text rest : List Char} {cur : Cursor}
    (begins : beginsPlain text = true) (noDash : rest.head? ≠ some '-') (noDot : rest.head? ≠ some '.')
    (h : cur.rest = text ++ rest) : cur.atTriple '-' = false ∧ cur.atTriple '.' = false := by
  cases text with
  | nil => cases begins
  | cons c text =>
    simp only [beginsPlain, Bool.and_eq_true, Bool.not_eq_true'] at begins
    obtain ⟨⟨-, dashes⟩, dots⟩ := begins
    unfold Cursor.atTriple
    rw [h]
    constructor
    · rw [Bool.and_eq_false_iff, ← Bool.not_eq_true]
      exact Or.inl fun marked => absurd (dashes.symm.trans (isPrefixOf_triple noDash marked)) (by decide)
    · rw [Bool.and_eq_false_iff, ← Bool.not_eq_true]
      exact Or.inl fun marked => absurd (dots.symm.trans (isPrefixOf_triple noDot marked)) (by decide)

/-! ## Steps of the cutting -/

namespace Lexer

variable {s : Lexer} {cur : Cursor} {indents : List Nat} {keys : Bool} {released : Nat}
  {queue more toks : List Token}

-- evaluation would unroll the moves to the next token
attribute [local irreducible] toToken

theorem run_succ (fuel : Nat) (s : Lexer) :
    run (fuel + 1) s =
      match s.toToken.dropStale with
      | .error f => ([], some f)
      | .ok s =>
        let s := s.closeDeeper
        if s.cursor.atEnd then
          match s.cutEnd with
          | .error f => ([], some f)
          | .ok s => (s.queue, none)
        else
          match s.cut.bind dropStale with
          | .error f => ([], some f)
          | .ok s =>
            let count := s.releasable
            let (more, fault) := run fuel (s.release count)
            (s.queue.take count ++ more, fault) := rfl

/-- A state is cut into exactly these tokens, whatever fuel is left. -/
def Gives (s : Lexer) (toks : List Token) : Prop :=
  ∀ fuel, s.cursor.rest.length < fuel → run fuel s = (toks, none)

/-- A state is cut into its queue and exactly these tokens. -/
def Yields (s : Lexer) (toks : List Token) : Prop :=
  s.Gives (s.queue ++ toks)

/-- A state is cut as the one that stands on its next token. -/
theorem Yields.of_toToken {t : Lexer} (moves : s.toToken.dropStale = .ok t)
    (stays : t.toToken.dropStale = .ok t)
    (shorter : t.cursor.rest.length ≤ s.cursor.rest.length) (same : t.queue = s.queue)
    (h : t.Yields toks) : s.Yields toks := by
  intro fuel enough
  have found := h fuel (Nat.lt_of_le_of_lt shorter enough)
  cases fuel with
  | zero => exact absurd enough (Nat.not_lt_zero _)
  | succ fuel =>
    rw [run_succ, stays] at found
    rw [run_succ, moves, ← same]
    exact found

/-- Within so many rounds a state hands out these tokens and goes on as another one. -/
def Delivers (s : Lexer) (rounds : Nat) (toks : List Token) (t : Lexer) : Prop :=
  ∀ fuel, run (fuel + rounds) s = (toks ++ (run fuel t).1, (run fuel t).2)

theorem Delivers.trans {t u : Lexer} {rounds rounds' : Nat} (first : s.Delivers rounds toks t)
    (later : t.Delivers rounds' more u) : s.Delivers (rounds' + rounds) (toks ++ more) u := by
  intro fuel
  rw [← Nat.add_assoc, first, later, List.append_assoc]

/-- A state goes on as the one that stands on its next token. -/
theorem Delivers.of_toToken {t u : Lexer} {rounds : Nat} (moves : s.toToken.dropStale = .ok t)
    (stays : t.toToken.dropStale = .ok t) (h : t.Delivers (rounds + 1) toks u) : s.Delivers (rounds + 1) toks u := by
  intro fuel
  have found := h fuel
  rw [← Nat.add_assoc, run_succ, stays] at found
  rw [← Nat.add_assoc, run_succ, moves]
  exact found

/-- A state that stands on a token hands out what it may after cutting that token. -/
theorem delivers_of_cut {t : Lexer} (stays : s.toToken.dropStale = .ok s)
    (goesOn : s.closeDeeper.cursor.atEnd = false) (cuts : s.closeDeeper.cut.bind dropStale = .ok t) :
    s.Delivers 1 (t.queue.take t.releasable) (t.release t.releasable) := by
  intro fuel
  rw [run_succ, stays]
  simp only [goesOn, cuts, Bool.false_eq_true, if_false]

theorem Gives.of_cut {t : Lexer} (stays : s.toToken.dropStale = .ok s)
    (goesOn : s.closeDeeper.cursor.atEnd = false)
    (cuts : s.closeDeeper.cut.bind dropStale = .ok t)
    (shorter : t.cursor.rest.length < s.cursor.rest.length)
    (h : (t.release t.releasable).Gives toks) :
    s.Gives (t.queue.take t.releasable ++ toks) := by
  intro fuel enough
  cases fuel with
  | zero => exact absurd enough (Nat.not_lt_zero _)
  | succ fuel =>
    have behind := h fuel (by
      simp only [release]
      omega)
    rw [delivers_of_cut stays goesOn cuts, behind]

/-- A state that stands on a token is cut into what that adds to its queue and what comes behind. -/
theorem Yields.of_cut {t : Lexer} (stays : s.toToken.dropStale = .ok s)
    (goesOn : s.closeDeeper.cursor.atEnd = false)
    (cuts : s.closeDeeper.cut.bind dropStale = .ok t)
    (shorter : t.cursor.rest.length < s.cursor.rest.length) (same : t.queue = s.queue ++ more)
    (h : (t.release t.releasable).Yields toks) : s.Yields (more ++ toks) := by
  have given := Gives.of_cut stays goesOn cuts shorter h
  rw [release, ← List.append_assoc, List.take_append_drop, same, List.append_assoc] at given
  exact given

/-- What a state hands out comes before what is cut further on. -/
theorem Delivers.yields {t : Lexer} {rounds : Nat} (delivers : s.Delivers rounds (s.queue ++ more) t)
    (shorter : t.cursor.rest.length + rounds ≤ s.cursor.rest.length) (handed : t.queue = [])
    (h : t.Yields toks) : s.Yields (more ++ toks) := by
  intro fuel enough
  obtain ⟨left, rfl⟩ : ∃ left, fuel = left + rounds := ⟨fuel - rounds, by omega⟩
  rw [delivers, h left (by omega), handed, List.append_assoc]
  rfl

/-! ## The next token -/

theorem peek_of_startsToken (cur : Cursor) (h : startsToken cur.rest = true) :
    cur.peek ≠ ' ' ∧ cur.peek ≠ '#' ∧ isBreak cur.peek = false ∧ cur.peek ≠ '\ufeff' := by
  unfold Cursor.peek
  cases same : cur.rest with
  | nil => decide
  | cons c rest =>
    rw [same] at h
    simp only [startsToken, isSteady, List.head?_cons, Option.all_some, Bool.and_eq_true, bne_iff_ne,
      Bool.not_eq_true'] at h
    exact ⟨h.1.1, h.1.2, h.2.1, h.2.2⟩

theorem skipComment_spaces {count : Nat} {rest : List Char} (starts : startsToken rest = true)
    (h : cur.rest = List.replicate count ' ' ++ rest) : cur.skipComment = cur.along count rest := by
  have ends : rest.head?.all (fun ch => !(ch == ' ')) = true := by
    cases rest with
    | nil => rfl
    | cons c rest =>
      have solid : c ≠ ' ' := (peek_of_startsToken ⟨c :: rest, 0, 0, 0⟩ starts).1
      simp [solid]
  have spaces := Cursor.dropWhile_append (p := (· == ' ')) _ (by simp) ends (by simp [isSteady_space]) h
  rw [List.length_replicate] at spaces
  have noHash := (peek_of_startsToken (cur.along count rest) starts).2.1
  unfold Cursor.skipComment
  rw [spaces]
  simp only [beq_eq_false_iff_ne.2 noHash, Bool.false_eq_true, if_false]

theorem skipToToken_spaces {count fuel : Nat} {rest : List Char} (starts : startsToken rest = true)
    (h : s.cursor.rest = List.replicate count ' ' ++ rest) :
    skipToToken (fuel + 1) s = { s with cursor := s.cursor.along count rest } := by
  have noBreak := (peek_of_startsToken (s.cursor.along count rest) starts).2.2.1
  rw [skipToToken, skipComment_spaces starts h]
  simp only [noBreak, Bool.false_eq_true, if_false]

theorem toToken_spaces {rest : List Char} (count : Nat) (starts : startsToken rest = true)
    (h : s.cursor.rest = List.replicate count ' ' ++ rest) :
    s.toToken = { s with cursor := s.cursor.along count rest } := by
  have noMark : (s.cursor.peek == '\ufeff') = false := by
    cases count with
    | zero =>
      rw [List.replicate_zero, List.nil_append] at h
      rw [← h] at starts
      exact beq_eq_false_iff_ne.2 (peek_of_startsToken _ starts).2.2.2
    | succ count =>
      rw [Cursor.peek_of_rest h]
      rfl
  unfold toToken
  simp only [noMark, Bool.and_false, Bool.false_eq_true, if_false]
  exact skipToToken_spaces starts h

theorem toToken_of_startsToken (starts : startsToken s.cursor.rest = true) : s.toToken = s := by
  have moved := toToken_spaces 0 starts rfl
  rw [Cursor.along_zero rfl] at moved
  exact moved

theorem toToken_lineEnd {count : Nat} {rest : List Char} (starts : startsToken rest = true)
    (inBlock : s.inFlow = false) (h : s.cursor.rest = '\n' :: (List.replicate count ' ' ++ rest)) :
    s.toToken = { s with
      cursor := ⟨rest, s.cursor.index + 1 + count, s.cursor.line + 1, count⟩
      allowsKey := true } := by
  have stay : s.cursor.skipComment = s.cursor := by
    have stays := Cursor.dropWhile_append (p := (· == ' ')) [] rfl rfl rfl h
    rw [List.length_nil, Cursor.along_zero h] at stays
    unfold Cursor.skipComment
    rw [stays]
    simp [Cursor.peek_of_rest h]
  unfold toToken
  simp only [Cursor.peek_of_rest h, show ('\n' == '\ufeff') = false from rfl, Bool.and_false,
    Bool.false_eq_true, if_false]
  rw [skipToToken, stay, Cursor.peek_of_rest h, Cursor.takeBreak_of_lineFeed h, inBlock, h,
    List.length_cons, if_pos (by decide), skipToToken_spaces starts rfl]
  simp [Cursor.along]

/-! ## States of block context -/

/-- A state of block context in which no key is pending. -/
def free (cur : Cursor) (indents : List Nat) (keys : Bool) (released : Nat) (queue : List Token) :
    Lexer :=
  ⟨cur, indents, keys, none, [], released, queue⟩

@[simp] theorem free_cursor : (free cur indents keys released queue).cursor = cur := rfl

@[simp] theorem free_indents : (free cur indents keys released queue).indents = indents := rfl

@[simp] theorem free_queue : (free cur indents keys released queue).queue = queue := rfl

@[simp] theorem free_inFlow : (free cur indents keys released queue).inFlow = false := rfl

theorem dropStale_free :
    (free cur indents keys released queue).dropStale = .ok (free cur indents keys released queue) :=
  rfl

theorem closeDeeper_free :
    (free cur indents keys released queue).closeDeeper
      = free cur (keptAt indents cur.column) keys released (queue ++ endsAt indents cur.column) :=
  rfl

theorem stays_free (starts : startsToken cur.rest = true) :
    (free cur indents keys released queue).toToken.dropStale
      = .ok (free cur indents keys released queue) := by
  rw [toToken_of_startsToken starts]
  exact dropStale_free

theorem openBlock_free {start : Token} :
    (free cur indents keys released queue).openBlock start
      = free cur (if opensAt indents cur.column then cur.column :: indents else indents) keys released
          (queue ++ if opensAt indents cur.column then [start] else []) := by
  unfold openBlock
  have same : (free cur indents keys released queue).isDeeper
      (free cur indents keys released queue).cursor.column = opensAt indents cur.column := rfl
  rw [same]
  split <;> simp [free]

/-- A state in which no key is pending hands out all its tokens. -/
theorem releasable_free : (free cur indents keys released queue).releasable = queue.length :=
  rfl

theorem release_free :
    (free cur indents keys released queue).release (free cur indents keys released queue).releasable
      = free cur indents keys (released + queue.length) [] := by
  rw [releasable_free]
  simp [release, free]

/-- A state that stands at the end is cut into the ends of what is open. -/
theorem Yields.of_end (h : cur.rest = []) :
    (free cur indents keys released queue).Yields
      ((indents.map fun _ => Token.blockEnd) ++ [.streamEnd]) := by
  intro fuel enough
  cases fuel with
  | zero => exact absurd enough (Nat.not_lt_zero _)
  | succ fuel =>
    have starts : startsToken cur.rest = true := by
      rw [h]
      rfl
    have atEnd : cur.atEnd = true := by
      unfold Cursor.atEnd
      rw [h]
      rfl
    have split : (endsAt indents cur.column) ++ ((keptAt indents cur.column).map fun _ => Token.blockEnd)
        = indents.map fun _ => Token.blockEnd := by
      rw [endsAt, keptAt, ← List.map_append, List.takeWhile_append_dropWhile]
    have closed : (free cur (keptAt indents cur.column) keys released
        (queue ++ endsAt indents cur.column)).cutEnd
        = .ok (free cur [] keys released
          (queue ++ ((indents.map fun _ => Token.blockEnd) ++ [.streamEnd]))) := by
      have dropped (columns : List Nat) : columns.dropWhile (fun _ => true) = [] := by
        induction columns with
        | nil => rfl
        | cons column columns ih => exact ih
      have taken (columns : List Nat) : columns.takeWhile (fun _ => true) = columns := by
        induction columns with
        | nil => rfl
        | cons column columns ih => exact congrArg (column :: ·) ih
      rw [← split]
      simp [cutEnd, closeAll, closeWhile, free, inFlow, dropPending, push, bind, Except.bind, pure,
        Except.pure, dropped, taken]
    rw [run_succ, stays_free starts]
    simp only [closeDeeper_free, free_cursor, atEnd, if_true, closed, free_queue]

/-! ## The dash of an item -/

/-- The characters that say by themselves which token begins. -/
def isTokenChar (c : Char) : Bool :=
  "%[]\x7b\x7d,*&!'\"".toList.contains c

/-- What is cut where the first character does not decide. -/
theorem cut_of_not_isTokenChar {ch : Char} {rest : List Char} (h : s.cursor.rest = ch :: rest)
    (other : isTokenChar ch = false) :
    s.cut =
      if ch == '-' && s.cursor.column == 0 && s.cursor.atTriple '-' then
        s.cutBoundary fun c => .ok (.documentStart, c.skip 3)
      else if ch == '.' && s.cursor.column == 0 && s.cursor.atTriple '.' then
        s.cutBoundary fun c => .ok (.documentEnd, c.skip 3)
      else if ch == '-' && isBlankOrEnd (s.cursor.peekAt 1) then s.cutBlockEntry
      else if ch == '?' && s.isIndicator then s.cutKey
      else if ch == ':' && s.isIndicator then s.cutValue
      else if ch == '|' && !s.inFlow then s.cutBlockScalar false
      else if ch == '>' && !s.inFlow then s.cutBlockScalar true
      else if s.startsPlain then s.cutPlain
      else .error .malformed := by
  have peek := Cursor.peek_of_rest h
  unfold cut
  simp only [peek]
  split
  case h_12 => rfl
  all_goals exact absurd other (by decide)

theorem cut_item {rest : List Char} (h : cur.rest = '-' :: rest)
    (blank : isBlankOrEnd (rest.headD endMark) = true) :
    (free cur indents true released queue).cut
      = .ok (free (cur.along 1 rest)
          (if opensAt indents cur.column then cur.column :: indents else indents) true released
          (queue ++ (if opensAt indents cur.column then [.blockSequenceStart] else [])
            ++ [.blockEntry])) := by
  have noTriple : cur.atTriple '-' = false := by
    unfold Cursor.atTriple
    rw [h]
    rcases rest with _ | ⟨c, rest⟩
    · rfl
    · have other : ('-' == c) = false := by
        rw [beq_eq_false_iff_ne]
        intro same
        rw [← same] at blank
        exact absurd (show isBlankOrEnd '-' = true from blank) (by decide)
      rw [List.isPrefixOf_cons_cons, List.isPrefixOf_cons_cons, other]
      rfl
  have step := Cursor.next_of_isSteady h (by decide)
  have second : isBlankOrEnd (cur.peekAt 1) = true := by
    rw [Cursor.peekAt_one_of_rest h, blank]
  have entry : (free cur indents true released queue).cutBlockEntry
      = .ok (free cur.next (if opensAt indents cur.column then cur.column :: indents else indents) true
          released (queue ++ (if opensAt indents cur.column then [.blockSequenceStart] else [])
            ++ [.blockEntry])) := by
    unfold cutBlockEntry openFor
    have allows : (free cur indents true released queue).allowsKey = true := rfl
    simp only [free_inFlow, allows, Bool.false_eq_true, if_false, if_true, openBlock_free]
    rfl
  rw [cut_of_not_isTokenChar h (by decide)]
  simp only [free_cursor, noTriple, second, Bool.and_false, Bool.false_eq_true, if_false]
  rw [if_neg (by simp), if_pos (by decide), entry, step]

/-! ## Scalars -/

/-- The place that is noted where a node begins. -/
def noted (cur : Cursor) (indents : List Nat) (keys : Bool) (released : Nat) (queue : List Token) :
    Option PendingKey :=
  if keys then
    some ⟨released + queue.length, indents.head? == some cur.column, cur.index, cur.line, cur.column⟩
  else none

/-- A state of block context in which a key may be pending. -/
def held (pending : Option PendingKey) (cur : Cursor) (indents : List Nat) (keys : Bool)
    (released : Nat) (queue : List Token) : Lexer :=
  ⟨cur, indents, keys, pending, [], released, queue⟩

theorem dropStale_held {pending : Option PendingKey} :
    (held pending cur indents keys released queue).dropStale
      = (dropIfStale cur pending).map fun pending => held pending cur indents keys released queue := by
  unfold dropStale held
  cases dropIfStale cur pending <;> rfl

theorem closeDeeper_held {pending : Option PendingKey} :
    (held pending cur indents keys released queue).closeDeeper
      = held pending cur (keptAt indents cur.column) keys released
          (queue ++ endsAt indents cur.column) :=
  rfl

theorem notePending_free :
    (free cur indents keys released queue).notePending
      = .ok (held (noted cur indents keys released queue) cur indents keys released queue) := by
  cases keys <;> rfl

theorem isTokenChar_of_isIndicatorChar {c : Char} (h : isIndicatorChar c = false) :
    isTokenChar c = false := by
  simp [isIndicatorChar, isTokenChar] at h ⊢
  simp [h]

theorem noIndicator_of_beginsPlain {c : Char} {text : List Char}
    (begins : beginsPlain (c :: text) = true) : isIndicatorChar c = false := by
  simp only [beginsPlain, Bool.and_eq_true, Bool.not_eq_true'] at begins
  exact begins.1.1.1

/-- No blank stands behind a dash that begins a plain scalar. -/
theorem noItem_of_beginsPlain {c : Char} {text rest : List Char} (h : cur.rest = c :: text ++ rest)
    (begins : beginsPlain (c :: text) = true) : (c == '-' && isBlankOrEnd (cur.peekAt 1)) = false := by
  simp only [beginsPlain, Bool.and_eq_true, Bool.or_eq_true, bne_iff_ne, Bool.not_eq_true'] at begins
  rw [Cursor.peekAt_one_of_rest h, Bool.and_eq_false_iff]
  rcases begins.1.1.2 with other | solid
  · exact Or.inl (beq_eq_false_iff_ne.2 other)
  · cases text with
    | nil => exact absurd solid (by decide)
    | cons d text => exact Or.inr solid

theorem startsPlain_of_beginsPlain {text rest : List Char} (plain : IsPlain text)
    (begins : beginsPlain text = true) (h : cur.rest = text ++ rest) :
    (free cur indents keys released queue).startsPlain = true := by
  cases text with
  | nil => cases begins
  | cons c text =>
    have first := plain.chars c (by simp)
    have solid : c ≠ ' ' := fun space => plain.begins (by rw [space]; rfl)
    simp only [isPlainChar, Bool.and_eq_true, Bool.or_eq_true, beq_iff_eq, solid, false_or,
      Bool.not_eq_true'] at first
    have blank := first.1.1.1
    have noItem := noItem_of_beginsPlain h begins
    have noIndicator := noIndicator_of_beginsPlain begins
    unfold startsPlain
    simp only [free_cursor, free_inFlow, Cursor.peek_of_rest h]
    by_cases dash : c = '-'
    · rw [dash] at noItem ⊢
      rw [beq_self_eq_true, Bool.true_and] at noItem
      simp [noItem]
    · have other : "-?:,[]\x7b\x7d#&*!|>'\"%@\x60".toList.contains c = false := by
        rw [← noIndicator]
        simp [isIndicatorChar, dash]
      rw [other, blank]
      rfl

/-- A plain scalar is cut up to what ends it, and a key may begin behind it if a line ends there. -/
theorem cut_plain {text rest : List Char} {crosses : Bool} {after : Cursor} (plain : IsPlain text)
    (begins : beginsPlain text = true) (noDash : rest.head? ≠ some '-') (noDot : rest.head? ≠ some '.')
    (stop : Plain.stops rest = true) (h : cur.rest = text ++ rest)
    (deep : (free cur indents keys released queue).leastIndent ≤ cur.column + 1)
    (ends : Plain.Ends false (free cur indents keys released queue).leastIndent
      (cur.along text.length rest) crosses after) :
    (free cur indents keys released queue).cut
      = .ok (held (noted cur indents keys released queue) after indents crosses released
          (queue ++ [.scalar text .plain])) := by
  have starts : (free cur indents keys released queue).startsPlain = true :=
    startsPlain_of_beginsPlain plain begins h
  have scanned := Plain.scan_isPlain plain (Plain.avoids_false text) stop h deep ends
  obtain ⟨noDashes, noDots⟩ := atTriple_of_beginsPlain begins noDash noDot h
  have cutting : (free cur indents keys released queue).cutPlain
      = .ok (held (noted cur indents keys released queue) after indents crosses released
          (queue ++ [.scalar text .plain])) := by
    have same : Plain.scan (held (noted cur indents keys released queue) cur indents keys released
        queue).inFlow (held (noted cur indents keys released queue) cur indents keys released
        queue).leastIndent cur = ⟨text, crosses, after⟩ := scanned
    unfold cutPlain
    rw [notePending_free]
    show Except.ok _ = _
    simp only [show (held (noted cur indents keys released queue) cur indents keys released
        queue).cursor = cur from rfl, same]
    rfl
  cases text with
  | nil => cases begins
  | cons c text =>
    have noIndicator := noIndicator_of_beginsPlain begins
    have noItem := noItem_of_beginsPlain h begins
    rw [cut_of_not_isTokenChar h (isTokenChar_of_isIndicatorChar noIndicator)]
    simp only [free_cursor, noDashes, noDots, Bool.and_false, noItem, Bool.false_eq_true, if_false, starts,
      if_true, cutting]
    have others : c ≠ '?' ∧ c ≠ ':' ∧ c ≠ '|' ∧ c ≠ '>' := by
      refine ⟨?_, ?_, ?_, ?_⟩ <;> (rintro rfl; exact absurd noIndicator (by decide))
    simp [others]

/-- A scalar between double quotes is cut as it is read, with the place before it noted. -/
theorem cut_doubleQuoted {word rest : List Char} {after : Cursor} (h : cur.rest = '"' :: rest)
    (scans : FlowScalar.scan true cur = .ok (word, after)) :
    (free cur indents keys released queue).cut
      = .ok (held (noted cur indents keys released queue) after indents false released
          (queue ++ [.scalar word .doubleQuoted])) := by
  have peek : cur.peek = '"' := Cursor.peek_of_rest h
  have cutting : (free cur indents keys released queue).cutNode (quotedToken true)
      = .ok (held (noted cur indents keys released queue) after indents false released
          (queue ++ [.scalar word .doubleQuoted])) := by
    unfold cutNode
    rw [notePending_free]
    have token : quotedToken true (held (noted cur indents keys released queue) cur indents keys
        released queue).cursor = .ok (.scalar word .doubleQuoted, after) := by
      show Except.map _ (FlowScalar.scan true cur) = _
      rw [scans]
      rfl
    show (quotedToken true _ >>= _) = _
    rw [token]
    rfl
  rw [← cutting]
  unfold cut
  simp only [free_cursor, peek]

theorem cut_quote {text rest : List Char} (h : cur.rest = quote text ++ rest) :
    (free cur indents keys released queue).cut
      = .ok (held (noted cur indents keys released queue) (cur.along (quote text).length rest) indents
          false released (queue ++ [.scalar text .doubleQuoted])) :=
  cut_doubleQuoted h (FlowScalar.scan_quote h)

/-- A written scalar before the colon of a key is cut with its place noted. -/
theorem cut_key {written : Written} {rest : List Char} (sound : written.IsSound)
    (h : cur.rest = written.chars ++ ':' :: rest) (blank : isBlankOrEnd (rest.headD endMark) = true)
    (deep : (free cur indents keys released queue).leastIndent ≤ cur.column + 1) :
    (free cur indents keys released queue).cut
      = .ok (held (noted cur indents keys released queue)
          (cur.along written.chars.length (':' :: rest)) indents false released
          (queue ++ [written.token])) := by
  rcases written with ⟨text, quoted⟩
  cases quoted with
  | true => exact cut_quote h
  | false =>
    obtain ⟨plain, begins⟩ := sound.resolve_left Bool.false_ne_true
    refine cut_plain plain begins (by simp) (by simp) ?_ h deep (Plain.ends_key rfl)
    rw [Plain.stops, blank]
    rfl

/-- The colon behind a pending key puts the key mark before it. -/
theorem cut_value {rest : List Char} {key : PendingKey} {token : Token}
    (h : cur.rest = ':' :: rest) (blank : isBlankOrEnd (rest.headD endMark) = true)
    (first : key.number = released) :
    (held (some key) cur indents keys released [token]).cut
      = .ok (free (cur.along 1 rest)
          (if opensAt indents key.column then key.column :: indents else indents) false released
          ((if opensAt indents key.column then [.blockMappingStart] else [])
            ++ [.key, token, .value])) := by
  have cursor : (held (some key) cur indents keys released [token]).cursor = cur := rfl
  have step := Cursor.next_of_isSteady h (by decide)
  have indicates : (held (some key) cur indents keys released [token]).isIndicator = true := by
    show (false || isBlankOrEnd (cur.peekAt 1)) = true
    rw [Cursor.peekAt_one_of_rest h, blank]
    rfl
  have cutting : (held (some key) cur indents keys released [token]).cutValue
      = .ok (free cur.next
          (if opensAt indents key.column then key.column :: indents else indents) false released
          ((if opensAt indents key.column then [.blockMappingStart] else [])
            ++ [.key, token, .value])) := by
    have opens : (!(held (some key) cur indents keys released [token]).inFlow
        && (held (some key) cur indents keys released [token]).isDeeper key.column)
        = opensAt indents key.column := rfl
    show Except.ok (((held (some key) cur indents keys released [token]).markKey key).pushAt .value
      cur.next) = _
    unfold markKey
    simp only [opens, first]
    cases opensAt indents key.column <;> simp [held, free, pushAt]
  rw [cut_of_not_isTokenChar (s := held (some key) cur indents keys released [token]) h (by decide)]
  rw [if_neg (by simp), if_neg (by simp), if_neg (by simp), if_neg (by simp), if_pos (by simp [indicates]),
    cutting, step]

/-! ## Leads -/

theorem head_keptAt {innermost column : Nat} (h : (keptAt indents column).head? = some innermost) :
    innermost ≤ column := by
  have stopped := List.head?_dropWhile_not (fun innermost => decide (column < innermost)) indents
  rw [show (indents.dropWhile fun innermost => decide (column < innermost)).head? = some innermost
    from h] at stopped
  simpa using stopped

/-- No open collection is closed at a column that is no less deep than the innermost. -/
theorem keptAt_of_head {column : Nat}
    (h : ∀ innermost, indents.head? = some innermost → innermost ≤ column) :
    keptAt indents column = indents ∧ endsAt indents column = [] := by
  cases indents with
  | nil => exact ⟨rfl, rfl⟩
  | cons innermost outer =>
    have noDeeper : decide (column < innermost) = false := by
      rw [decide_eq_false_iff_not]
      exact Nat.not_lt.2 (h innermost rfl)
    unfold keptAt endsAt
    rw [List.dropWhile_cons, List.takeWhile_cons, noDeeper]
    exact ⟨rfl, rfl⟩

theorem leastIndent_le {column : Nat}
    (h : ∀ innermost, indents.head? = some innermost → innermost ≤ column) :
    (free cur indents keys released queue).leastIndent ≤ column + 1 := by
  cases indents with
  | nil => exact Nat.zero_le _
  | cons innermost outer => exact Nat.succ_le_succ (h innermost rfl)

theorem le_of_leastIndent_le {column : Nat}
    (deep : (free cur indents keys released queue).leastIndent ≤ column) :
    ∀ innermost, indents.head? = some innermost → innermost ≤ column := by
  intro innermost found
  cases indents with
  | nil => cases found
  | cons first outer =>
    cases found
    exact Nat.le_of_succ_le deep

/-- A row at a column leaves the collection at that column as the innermost open one. -/
theorem head_indentsAt (indents : List Nat) (column : Nat) : (indentsAt indents column).head? = some column := by
  unfold indentsAt
  cases opens : opensAt (keptAt indents column) column with
  | true => rfl
  | false =>
    have kept : ∀ innermost, (keptAt indents column).head? = some innermost → innermost ≤ column :=
      fun _ found => head_keptAt found
    cases same : keptAt indents column with
    | nil =>
      rw [same] at opens
      cases opens
    | cons innermost outer =>
      rw [same] at opens kept
      have notLess : ¬innermost < column := of_decide_eq_false opens
      have le := kept innermost rfl
      have exactly : innermost = column := by omega
      simp [exactly]

/-- The tokens of a lead at a column, with the ends of what is deeper and the start of a collection if one begins. -/
def leadTokens (indents : List Nat) (column : Nat) (lead : Lead) : List Token :=
  endsAt indents column ++ ((if opensAt (keptAt indents column) column then [lead.start] else []) ++ lead.tokens)

/-- A dash where an item may begin is handed out, and the cutting goes on behind it. -/
theorem delivers_item {rest : List Char} (h : cur.rest = '-' :: rest)
    (blank : isBlankOrEnd (rest.headD endMark) = true) :
    (free cur indents true released queue).Delivers 1 (queue ++ leadTokens indents cur.column .item)
      (free (cur.along 1 rest) (indentsAt indents cur.column) true
        (released + (queue ++ leadTokens indents cur.column .item).length) []) := by
  have starts : startsToken cur.rest = true := by
    rw [h]
    rfl
  have goesOn : cur.atEnd = false := by
    unfold Cursor.atEnd
    rw [h]
    rfl
  have cuts : (free cur indents true released queue).closeDeeper.cut.bind dropStale
      = .ok (free (cur.along 1 rest) (indentsAt indents cur.column) true released
          (queue ++ leadTokens indents cur.column .item)) := by
    rw [closeDeeper_free, cut_item h blank]
    show Except.ok _ = _
    simp only [leadTokens, List.append_assoc]
    rfl
  have delivers := delivers_of_cut (stays_free starts) goesOn cuts
  rw [release_free, releasable_free, free_queue, List.take_length] at delivers
  exact delivers

/-- A key stays pending on its line, within the reach of a key. -/
theorem dropIfStale_near {key : PendingKey} {after : Cursor} (line : key.line = after.line)
    (near : after.index ≤ key.index + keyReach) : dropIfStale after (some key) = .ok (some key) := by
  have fresh : key.isStale after = false := by
    unfold PendingKey.isStale
    rw [line]
    simp [near]
  show (if key.isStale after then _ else _) = _
  rw [fresh]
  rfl

section

variable {key : PendingKey} {token : Token} {rest : List Char}

theorem stays_colon (h : cur.rest = ':' :: rest) (line : key.line = cur.line)
    (near : cur.index ≤ key.index + keyReach) :
    (held (some key) cur indents false released [token]).toToken.dropStale
      = .ok (held (some key) cur indents false released [token]) := by
  have starts : startsToken cur.rest = true := by
    rw [h]
    rfl
  have stands : startsToken (held (some key) cur indents false released [token]).cursor.rest = true := starts
  rw [toToken_of_startsToken stands, dropStale_held, dropIfStale_near line near]
  rfl

theorem cuts_colon (h : cur.rest = ':' :: rest) (blank : isBlankOrEnd (rest.headD endMark) = true)
    (first : key.number = released)
    (inside : ∀ innermost, indents.head? = some innermost → innermost ≤ cur.column) :
    (held (some key) cur indents false released [token]).closeDeeper.cut.bind dropStale
      = .ok (free (cur.along 1 rest)
          (if opensAt indents key.column then key.column :: indents else indents) false released
          ((if opensAt indents key.column then [.blockMappingStart] else [])
            ++ [.key, token, .value])) := by
  rw [closeDeeper_held, (keptAt_of_head inside).1, (keptAt_of_head inside).2, List.append_nil,
    cut_value h blank first]
  exact dropStale_free

end

section

variable {key : Written} {rest : List Char}

/-- The place that is noted where a key begins. -/
def keyPlace (cur : Cursor) (indents : List Nat) (released : Nat) (queue : List Token) : PendingKey :=
  ⟨released + (queue ++ endsAt indents cur.column).length, (keptAt indents cur.column).head? == some cur.column,
    cur.index, cur.line, cur.column⟩

theorem cuts_entry (sound : key.IsSound) (short : key.chars.length ≤ keyReach)
    (h : cur.rest = key.chars ++ ':' :: rest) (blank : isBlankOrEnd (rest.headD endMark) = true) :
    (free cur indents true released queue).closeDeeper.cut.bind dropStale
      = .ok (held (some (keyPlace cur indents released queue)) (cur.along key.chars.length (':' :: rest))
          (keptAt indents cur.column) false released (queue ++ endsAt indents cur.column ++ [key.token])) := by
  have inside : ∀ innermost, (keptAt indents cur.column).head? = some innermost →
      innermost ≤ cur.column := fun _ found => head_keptAt found
  rw [closeDeeper_free, cut_key sound h blank (leastIndent_le inside)]
  show dropStale _ = _
  rw [dropStale_held, show noted cur _ true released _ = some (keyPlace cur indents released queue) from rfl,
    dropIfStale_near rfl (Nat.add_le_add_left short _)]
  rfl

/-- A key where one may begin is handed out with its colon, and the cutting goes on behind that. -/
theorem delivers_entry (sound : key.IsSound) (short : key.chars.length ≤ keyReach)
    (h : cur.rest = key.chars ++ ':' :: rest) (blank : isBlankOrEnd (rest.headD endMark) = true) :
    (free cur indents true released queue).Delivers 2 (queue ++ leadTokens indents cur.column (.entry key))
      (free (cur.along (key.chars.length + 1) rest) (indentsAt indents cur.column) false
        (released + (queue ++ leadTokens indents cur.column (.entry key)).length) []) := by
  obtain ⟨starts, goesOn⟩ := Written.starts sound h
  let start := queue ++ endsAt indents cur.column
  let place := keyPlace cur indents released queue
  let colon := cur.along key.chars.length (':' :: rest)
  let marks := (if opensAt (keptAt indents cur.column) cur.column then [.blockMappingStart] else [])
    ++ [.key, key.token, .value]
  have cuts : (free cur indents true released queue).closeDeeper.cut.bind dropStale
      = .ok (held (some place) colon (keptAt indents cur.column) false released (start ++ [key.token])) :=
    cuts_entry sound short h blank
  have count : (held (some place) colon (keptAt indents cur.column) false released
      (start ++ [key.token])).releasable = start.length := by
    show released + start.length - released = start.length
    omega
  have first : (free cur indents true released queue).Delivers 1 start
      (held (some place) colon (keptAt indents cur.column) false (released + start.length) [key.token]) := by
    have delivers := delivers_of_cut (stays_free starts) goesOn cuts
    rw [count, release] at delivers
    simpa only [held, List.take_left, List.drop_left] using delivers
  have colonCuts : (held (some place) colon (keptAt indents cur.column) false (released + start.length)
      [key.token]).closeDeeper.cut.bind dropStale
      = .ok (free (colon.along 1 rest) (indentsAt indents cur.column) false (released + start.length) marks) :=
    cuts_colon rfl blank rfl fun innermost found => Nat.le_trans (head_keptAt found) (Nat.le_add_right _ _)
  have second : (held (some place) colon (keptAt indents cur.column) false (released + start.length)
      [key.token]).Delivers 1 marks
      (free (colon.along 1 rest) (indentsAt indents cur.column) false (released + start.length + marks.length) []) := by
    have delivers := delivers_of_cut (stays_colon rfl rfl (Nat.add_le_add_left short _)) rfl colonCuts
    rw [release_free, releasable_free, free_queue, List.take_length] at delivers
    exact delivers
  have both := first.trans second
  have same : start ++ marks = queue ++ leadTokens indents cur.column (.entry key) := List.append_assoc ..
  rw [Cursor.along_along, Nat.add_assoc, ← List.length_append, same] at both
  exact both

end

theorem length_lead_pos {lead : Lead} (sound : lead.IsSound) : 0 < lead.chars.length := by
  cases lead with
  | item => exact Nat.one_pos
  | entry key =>
    rw [Lead.chars, List.length_append]
    exact Nat.lt_add_left _ Nat.one_pos

/-- A lead where one may begin is handed out, and the cutting goes on behind it. -/
theorem delivers_lead (indents : List Nat) (released : Nat) (queue : List Token) {lead : Lead} {rest : List Char}
    (sound : lead.IsSound) (h : cur.rest = lead.chars ++ rest) (blank : isBlankOrEnd (rest.headD endMark) = true) :
    ∃ rounds keys, rounds ≤ lead.chars.length
      ∧ (free cur indents true released queue).Delivers rounds (queue ++ leadTokens indents cur.column lead)
        (free (cur.along lead.chars.length rest) (indentsAt indents cur.column) keys
          (released + (queue ++ leadTokens indents cur.column lead).length) []) := by
  cases lead with
  | item => exact ⟨1, true, Nat.le_refl 1, delivers_item h blank⟩
  | entry key =>
    have long : 2 ≤ key.chars.length + 1 := Nat.succ_le_succ (Written.length_chars_pos sound.1)
    have split : cur.rest = key.chars ++ ':' :: rest := by
      rw [h, Lead.chars, List.append_assoc]
      rfl
    rw [Lead.chars, List.length_append, List.length_singleton]
    exact ⟨2, false, long, delivers_entry sound.1 sound.2 split blank⟩

/-- A lead is cut, and then what is behind it. -/
theorem Yields.of_lead {lead : Lead} {rest : List Char} (sound : lead.IsSound) (h : cur.rest = lead.chars ++ rest)
    (blank : isBlankOrEnd (rest.headD endMark) = true)
    (next : ∀ keys released, (free (cur.along lead.chars.length rest) (indentsAt indents cur.column) keys released
      []).Yields toks) :
    (free cur indents true released queue).Yields (leadTokens indents cur.column lead ++ toks) := by
  obtain ⟨rounds, keys, few, delivers⟩ := delivers_lead indents released queue sound h blank
  refine delivers.yields ?_ rfl (next _ _)
  rw [free_cursor, free_cursor, h, Cursor.along_rest, List.length_append]
  omega

end Lexer

end LayeredConfig.Yaml
