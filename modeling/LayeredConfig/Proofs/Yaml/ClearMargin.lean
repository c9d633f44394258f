import LayeredConfig.Proofs.Yaml.Nesting
import LayeredConfig.Proofs.Yaml.TokenSources
import Mathlib.Data.List.Forall2

/-!
# The tokens of a text with a clear margin

Behind the colon of a key at the margin, a text none of whose further lines begins like a key there is cut into tokens whose
key marks are all inside another collection than that of the key: `Lexer.keysInner_run`. What every step keeps is that the
cursor stands at the margin only before what begins no key, that the open collections are those that the tokens have opened,
and that a mark before a token that may begin a key would be inside (`Lexer.Nested`).
-/

namespace LayeredConfig.Yaml

/-! ## Clear margins -/

/-- The characters that no key begins with: blanks, the mark of a comment, the heads of block scalars, and what ends a flow
collection or an entry of one. -/
def beginsNoKey (c : Char) : Bool :=
  isBlankOrEnd c || c == '#' || c == '|' || c == '>' || c == ',' || c == ']' || c == '\x7d'

/-- Whether no line of a text but the first begins like a key at the margin. -/
def hasClearMargin : List Char → Bool
  | [] => true
  | c :: rest => (!isBreak c || beginsNoKey (rest.headD endMark)) && hasClearMargin rest

variable {text : List Char} {c : Cursor}

theorem beginsNoKey_of_hasClearMargin {b : Char} {rest : List Char} (clear : hasClearMargin text = true)
    (behind : b :: rest <:+ text) (breaks : isBreak b = true) : beginsNoKey (rest.headD endMark) = true := by
  induction text with
  | nil => cases List.suffix_nil.1 behind
  | cons first text ih =>
    rw [hasClearMargin, Bool.and_eq_true] at clear
    rcases List.suffix_cons_iff.1 behind with same | behind
    · cases same
      simpa [breaks] using clear.1
    · exact ih clear.2 behind

/-- A text behind the colon of a key, none of whose further lines begins like a key at the margin. -/
structure IsBody (text : List Char) : Prop where
  begins : isBlankOrEnd (text.headD endMark) = true
  clear : hasClearMargin text = true

/-- In such a text, no key begins at the margin. -/
theorem Cursor.Inside.beginsNoKey_peek (inside : c.Inside text) (body : IsBody text) (margin : c.column = 0) :
    beginsNoKey c.peek = true := by
  obtain ⟨origin, rfl, n, rfl⟩ := inside
  induction n with
  | zero =>
    have begins := body.begins
    show beginsNoKey (origin.rest.headD endMark) = true
    rw [beginsNoKey, begins]
    rfl
  | succ n ih =>
    have behind := Cursor.rest_skip n origin
    rw [← Cursor.next_skip] at margin ⊢
    generalize origin.skip n = c at *
    have part : c.rest <:+ origin.rest := behind ▸ List.drop_suffix n _
    unfold Cursor.next at margin ⊢
    split at margin
    · next ended => exact ih margin
    · next ch rest front =>
      rw [front] at part
      split at margin
      · next breaks =>
        rw [Bool.and_eq_true] at breaks
        rw [if_pos (by rw [Bool.and_eq_true]; exact breaks)]
        exact beginsNoKey_of_hasClearMargin body.clear part breaks.1
      · split at margin
        · next mark =>
          have keyless := ih margin
          rw [Cursor.peek_of_rest front, beq_iff_eq.1 mark] at keyless
          exact absurd keyless (by decide)
        · cases margin

/-! ## Places where a key may have begun -/

/-- What is open before the token of a number, where the tokens are numbered from `base` on. -/
def nestAt (base : Nat) (tokens : List Token) (number : Nat) : Option Nest :=
  Nest.outermost.afterAll (tokens.take (number - base))

theorem nestAt_append {base number : Nat} {tokens : List Token} (more : List Token)
    (within : number ≤ base + tokens.length) : nestAt base (tokens ++ more) number = nestAt base tokens number := by
  rw [nestAt, List.take_append_of_le_length (Nat.sub_le_iff_le_add'.2 within), nestAt]

/-- The places on all levels where a key may have begun, innermost first: each one is behind the next, and a key mark there
is inside another collection, or it would be with the start of the mapping that the key opens. -/
def Waiting (nestAt : Nat → Option Nest) (opens : Nat → Bool) : Nat → List (Option PendingKey) → Prop
  | _, [] => True
  | bound, none :: outer => Waiting nestAt opens bound outer
  | bound, some key :: outer =>
    (key.number ≤ bound ∧ ∃ n, nestAt key.number = some n ∧ 0 < n.depth
        ∧ ((outer.isEmpty && opens key.column) = false → 1 < n.depth))
      ∧ Waiting nestAt opens key.number outer

/-- The same places where a key may have begun, some of them forgotten. -/
def Forgets (keys keys' : List (Option PendingKey)) : Prop :=
  List.Forall₂ (fun key key' => key' = key ∨ key' = none) keys keys'

theorem Forgets.mem {keys keys' : List (Option PendingKey)} {key : PendingKey} (forgets : Forgets keys keys')
    (member : some key ∈ keys') : some key ∈ keys := by
  induction forgets with
  | nil => exact member
  | cons same rest ih =>
    rcases List.mem_cons.1 member with rfl | member
    · rcases same with rfl | impossible
      · exact List.mem_cons_self
      · cases impossible
    · exact List.mem_cons_of_mem _ (ih member)

namespace Waiting

variable {nestAt nestAt' : Nat → Option Nest} {opens opens' : Nat → Bool} {bound bound' : Nat}
  {keys keys' : List (Option PendingKey)} {key : PendingKey}

theorem imp (waiting : Waiting nestAt opens bound keys) (further : bound ≤ bound')
    (same : ∀ number ≤ bound, nestAt' number = nestAt number)
    (opened : ∀ column, opens column = true → opens' column = true) : Waiting nestAt' opens' bound' keys := by
  induction keys generalizing bound bound' with
  | nil => trivial
  | cons key outer ih =>
    cases key with
    | none => exact ih waiting further same
    | some key =>
      obtain ⟨⟨within, n, found, deep, deeper⟩, rest⟩ := waiting
      refine ⟨⟨Nat.le_trans within further, n, (same _ within).trans found, deep, fun closed => deeper ?_⟩, ?_⟩
      · rw [Bool.and_eq_false_iff] at closed ⊢
        refine closed.imp_right fun closed => ?_
        rw [← Bool.not_eq_true] at closed ⊢
        exact mt (opened _) closed
      · exact ih rest Nat.le.refl fun number less => same number (Nat.le_trans less within)

theorem le_of_mem (waiting : Waiting nestAt opens bound keys) (member : some key ∈ keys) : key.number ≤ bound := by
  induction keys generalizing bound with
  | nil => cases member
  | cons other outer ih =>
    cases other with
    | none => exact ih waiting (by simpa using member)
    | some other =>
      obtain ⟨⟨within, -⟩, rest⟩ := waiting
      rcases List.mem_cons.1 member with same | member
      · cases same
        exact within
      · exact Nat.le_trans (ih rest member) within

/-- Forgetting some of the places keeps what is known of the others. -/
theorem forget (waiting : Waiting nestAt opens bound keys) (forgets : Forgets keys keys') :
    Waiting nestAt opens bound keys' := by
  induction forgets generalizing bound with
  | nil => trivial
  | @cons key key' outer outer' same rest ih =>
    have empty : outer'.isEmpty = outer.isEmpty := by
      cases rest <;> rfl
    cases key with
    | none =>
      obtain rfl : key' = none := same.elim id id
      exact ih waiting
    | some key =>
      obtain ⟨⟨within, n, found, deep, deeper⟩, below⟩ := waiting
      rcases same with rfl | rfl
      · exact ⟨⟨within, n, found, deep, empty ▸ deeper⟩, ih below⟩
      · exact (ih below).imp within (fun _ _ => rfl) fun _ opened => opened

end Waiting

/-! ## Open block collections -/

section

variable {indents : List Nat} {column : Nat}

theorem one_lt_length_of_not_opensAt (sorted : indents.Pairwise (· > ·)) (margin : 0 ∈ indents) (inside : 0 < column)
    (closed : opensAt indents column = false) : 1 < indents.length := by
  cases indents with
  | nil => cases closed
  | cons innermost outer =>
    have deep : column ≤ innermost := Nat.not_lt.1 (of_decide_eq_false closed)
    rcases List.mem_cons.1 margin with same | further
    · omega
    · exact Nat.succ_lt_succ (List.length_pos_of_mem further)

theorem lt_of_opensAt (sorted : indents.Pairwise (· > ·)) (opened : opensAt indents column = true) :
    ∀ other ∈ indents, other < column := by
  cases indents with
  | nil => exact nofun
  | cons innermost outer =>
    have deep : innermost < column := of_decide_eq_true opened
    refine List.forall_mem_cons.2 ⟨deep, fun other member => ?_⟩
    exact Nat.lt_trans ((List.pairwise_cons.1 sorted).1 other member) deep

/-- Closing collections leaves room for one at a column that was deep enough before. -/
theorem opensAt_dropWhile (sorted : indents.Pairwise (· > ·)) (closes : Nat → Bool)
    (opened : opensAt indents column = true) : opensAt (indents.dropWhile closes) column = true := by
  cases kept : indents.dropWhile closes with
  | nil => rfl
  | cons innermost outer =>
    have member : innermost ∈ indents := (List.dropWhile_suffix closes).mem (kept ▸ List.mem_cons_self)
    exact decide_eq_true (lt_of_opensAt sorted opened innermost member)

theorem afterAll_blockEnds (closed kept : List Nat) (flows : Nat) :
    Nest.afterAll ⟨(closed ++ kept).length, flows⟩ (closed.map fun _ => .blockEnd) = some ⟨kept.length, flows⟩ := by
  induction closed with
  | nil => rfl
  | cons column closed ih =>
    rw [List.map_cons, afterAll_cons]
    exact ih

end

/-! ## The state of the cutting -/

namespace Lexer

/-- The tokens `given` have been handed out since a key at the margin got its colon, and those cut since then have their key
marks inside; what they leave open are the collections of the state. -/
structure Nested (text : List Char) (base : Nat) (given : List Token) (s : Lexer) : Prop where
  cursor : s.cursor.Inside text
  sorted : s.indents.Pairwise (· > ·)
  margin : 0 ∈ s.indents
  released : s.released = base + given.length
  keys : KeysInner .outermost (given ++ s.queue)
  nest : Nest.outermost.afterAll (given ++ s.queue) = some ⟨s.indents.length, s.outerPending.length⟩
  kept : ∀ key, some key ∈ s.pending :: s.outerPending → s.released ≤ key.number
  waiting : Waiting (nestAt base (given ++ s.queue)) (opensAt s.indents) (s.released + s.queue.length)
    (s.pending :: s.outerPending)

/-- The last token that is cut ends a flow collection that is not open. All are handed out. -/
structure Broken (given : List Token) (s : Lexer) : Prop where
  keys : KeysInner .outermost (given ++ s.queue)
  nest : Nest.outermost.afterAll (given ++ s.queue) = none
  pending : s.pending = none
  outerPending : s.outerPending = []

variable {base : Nat} {given more : List Token} {s s' : Lexer} {token : Token} {key : PendingKey}

/-- Cutting keeps the nesting, or fails with a fault that the text explains. -/
def KeepsNesting (text : List Char) (base : Nat) (given : List Token) (outcome : Except Fault Lexer) : Prop :=
  Outcome.Meets (Nested text base given) (Fault.ExplainedBy text) outcome

/-- Cutting keeps the nesting or stops the reading, or fails with a fault that the text explains. -/
def KeepsOrBreaks (text : List Char) (base : Nat) (given : List Token) (outcome : Except Fault Lexer) : Prop :=
  Outcome.Meets (fun s => s.Nested text base given ∨ s.Broken given) (Fault.ExplainedBy text) outcome

/-- What is found opens and closes nothing, or a fault is that the text explains. -/
def FindsNeutral (text : List Char) (found : Except Fault (Token × Cursor)) : Prop :=
  Outcome.Meets (fun found => found.1.IsNeutral ∧ found.2.Inside text) (Fault.ExplainedBy text) found

theorem KeepsNesting.orBreaks {outcome : Except Fault Lexer} (keeps : KeepsNesting text base given outcome) :
    KeepsOrBreaks text base given outcome :=
  keeps.imp (fun _ => Or.inl) fun _ explained => explained

theorem outerPending_eq_nil (inBlock : s.inFlow = false) : s.outerPending = [] := by
  simpa [inFlow] using inBlock

theorem dropPending_eq (s : Lexer) :
    Outcome.Meets (· = { s with pending := none }) (Fault.ExplainedBy text) s.dropPending := by
  unfold dropPending
  split
  · split
    · exact Fault.malformed_explainedBy
    · exact rfl
  · next absent =>
    rw [← absent]
    exact rfl

namespace Nested

theorem length_eq (nested : s.Nested text base given) :
    base + (given ++ s.queue).length = s.released + s.queue.length := by
  rw [nested.released, List.length_append, Nat.add_assoc]

/-- A state that adds tokens to those that are cut, and opens and closes what they do. -/
theorem extend (nested : s.Nested text base given) (inside : s'.cursor.Inside text)
    (sorted : s'.indents.Pairwise (· > ·)) (margin : 0 ∈ s'.indents) (released : s'.released = s.released)
    (queue : s'.queue = s.queue ++ more) (keys : KeysInner ⟨s.indents.length, s.outerPending.length⟩ more)
    (nest : Nest.afterAll ⟨s.indents.length, s.outerPending.length⟩ more
      = some ⟨s'.indents.length, s'.outerPending.length⟩)
    (kept : ∀ key, some key ∈ s'.pending :: s'.outerPending → s.released ≤ key.number)
    (waiting : Waiting (nestAt base (given ++ s.queue)) (opensAt s'.indents) (s.released + s.queue.length)
      (s'.pending :: s'.outerPending)) : s'.Nested text base given := by
  have cut : given ++ s'.queue = (given ++ s.queue) ++ more := by rw [queue, List.append_assoc]
  refine ⟨inside, sorted, margin, released.trans nested.released, ?_, ?_, released ▸ kept, ?_⟩
  · rw [cut, keysInner_append_of_some nested.nest]
    exact ⟨nested.keys, keys⟩
  · rw [cut, afterAll_append_of_some nested.nest]
    exact nest
  · refine waiting.imp ?_ (fun number within => ?_) fun _ opened => opened
    · rw [released, queue, List.length_append]
      omega
    · rw [cut]
      exact nestAt_append more (nested.length_eq ▸ within)

/-- A state that has come further in the text. -/
theorem move (nested : s.Nested text base given) (inside : c.Inside text) (keys : Bool) :
    ({ s with cursor := c, allowsKey := keys } : Lexer).Nested text base given :=
  nested.extend inside nested.sorted nested.margin rfl (List.append_nil _).symm trivial rfl nested.kept nested.waiting

theorem pushAt (nested : s.Nested text base given) (neutral : token.IsNeutral) (inside : c.Inside text) :
    (s.pushAt token c).Nested text base given :=
  nested.extend inside nested.sorted nested.margin rfl rfl neutral.keysInner
    ((afterAll_singleton _ token).trans (neutral.2 _)) nested.kept nested.waiting

/-- A state without some of the places where a key may have begun. -/
theorem forget (nested : s.Nested text base given) {pending : Option PendingKey}
    {outerPending : List (Option PendingKey)}
    (forgets : Forgets (s.pending :: s.outerPending) (pending :: outerPending)) :
    ({ s with pending, outerPending } : Lexer).Nested text base given := by
  have levels : outerPending.length = s.outerPending.length := Nat.succ.inj forgets.length_eq.symm
  refine nested.extend nested.cursor nested.sorted nested.margin rfl (List.append_nil _).symm trivial ?_
    (fun key member => nested.kept key (forgets.mem member)) (nested.waiting.forget forgets)
  show some (⟨_, s.outerPending.length⟩ : Nest) = some ⟨_, outerPending.length⟩
  rw [levels]

theorem withoutPending (nested : s.Nested text base given) :
    ({ s with pending := none } : Lexer).Nested text base given :=
  nested.forget (.cons (Or.inr rfl) (List.forall₂_same.2 fun _ _ => Or.inl rfl))

theorem dropPending (nested : ({ s with pending := none } : Lexer).Nested text base given) :
    KeepsNesting text base given s.dropPending :=
  (dropPending_eq s).imp (fun _ same => same ▸ nested) fun _ explained => explained

theorem skipToToken (nested : s.Nested text base given) (fuel : Nat) :
    (Lexer.skipToToken fuel s).Nested text base given := by
  induction fuel generalizing s with
  | zero => exact nested
  | succ fuel ih =>
    unfold Lexer.skipToToken
    dsimp only
    split
    · exact ih (nested.move nested.cursor.skipComment.takeBreak _)
    · exact nested.move nested.cursor.skipComment _

theorem toToken (nested : s.Nested text base given) : s.toToken.Nested text base given := by
  unfold Lexer.toToken
  dsimp only
  apply skipToToken
  split
  · exact nested.move nested.cursor.next _
  · exact nested

theorem dropStale (nested : s.Nested text base given) : KeepsNesting text base given s.dropStale := by
  have each (key : Option PendingKey) :
      Outcome.Meets (fun key' => key' = key ∨ key' = none) (Fault.ExplainedBy text) (dropIfStale s.cursor key) := by
    unfold dropIfStale
    repeat' split
    all_goals first | exact Or.inl rfl | exact Or.inr rfl | exact Fault.malformed_explainedBy
  have all (keys : List (Option PendingKey)) :
      Outcome.Meets (Forgets keys) (Fault.ExplainedBy text) (keys.mapM (dropIfStale s.cursor)) := by
    induction keys with
    | nil => exact List.Forall₂.nil
    | cons key keys ih =>
      rw [List.mapM_cons]
      exact (each key).bind fun key' same => ih.bind fun keys' forgets => List.Forall₂.cons same forgets
  refine (each s.pending).bind fun pending same => (all s.outerPending).bind fun outerPending forgets => ?_
  exact nested.forget (List.Forall₂.cons same forgets)

/-- Collections inside that of the key at the margin are closed. -/
theorem closeDeeper (nested : s.Nested text base given) : s.closeDeeper.Nested text base given := by
  unfold Lexer.closeDeeper
  split
  · exact nested
  · next inBlock =>
    generalize closing : (fun column => decide (s.cursor.column < column)) = closes
    have stays : closes 0 = false := closing ▸ decide_eq_false (Nat.not_lt_zero _)
    have whole : s.indents = s.indents.takeWhile closes ++ s.indents.dropWhile closes :=
      List.takeWhile_append_dropWhile.symm
    refine nested.extend nested.cursor (nested.sorted.sublist (List.dropWhile_sublist closes)) ?_ rfl rfl ?_ ?_
      nested.kept (nested.waiting.imp Nat.le.refl (fun _ _ => rfl) fun _ => opensAt_dropWhile nested.sorted closes)
    · have margin := nested.margin
      rw [whole, List.mem_append] at margin
      refine margin.resolve_left fun closed => ?_
      exact Bool.false_ne_true (stays.symm.trans (List.all_eq_true.1 List.all_takeWhile 0 closed))
    · refine keysInner_of_noKey fun token member => ?_
      obtain ⟨-, -, rfl⟩ := List.mem_map.1 member
      exact nofun
    · have ends := afterAll_blockEnds (s.indents.takeWhile closes) (s.indents.dropWhile closes) s.outerPending.length
      rw [← whole] at ends
      exact ends

/-- Where a key would open no mapping, there are two collections around it. -/
theorem one_lt_depth (nested : s.Nested text base given) {column : Nat} (inside : 0 < column)
    (closed : (s.outerPending.isEmpty && opensAt s.indents column) = false) :
    1 < (⟨s.indents.length, s.outerPending.length⟩ : Nest).depth := by
  have opened : 0 < s.indents.length := List.length_pos_of_mem nested.margin
  rcases Bool.and_eq_false_iff.1 closed with inFlow | closed
  · have levels : 0 < s.outerPending.length := List.length_pos_iff.2 fun none => by simp [none] at inFlow
    exact Nat.add_lt_add_of_le_of_lt opened levels
  · exact Nat.lt_add_right _ (one_lt_length_of_not_opensAt nested.sorted nested.margin inside closed)

/-- A place behind all tokens that are cut may begin a key. -/
theorem note (nested : s.Nested text base given) (number : key.number = s.released + s.queue.length)
    (inside : 0 < key.column) : ({ s with pending := some key } : Lexer).Nested text base given := by
  have forgotten := nested.withoutPending
  have here : nestAt base (given ++ s.queue) key.number = some ⟨s.indents.length, s.outerPending.length⟩ := by
    rw [nestAt, number, ← nested.length_eq, Nat.add_sub_cancel_left, List.take_length]
    exact nested.nest
  refine nested.extend nested.cursor nested.sorted nested.margin rfl (List.append_nil _).symm trivial rfl
    (fun other member => ?_) ⟨⟨Nat.le_of_eq number, _, here, ?_, nested.one_lt_depth inside⟩, ?_⟩
  · rcases List.mem_cons.1 member with same | member
    · cases same
      rw [number]
      exact Nat.le_add_right _ _
    · exact nested.kept other (List.mem_cons_of_mem _ member)
  · exact Nat.add_pos_left (List.length_pos_of_mem nested.margin) _
  · rw [number]
    exact forgotten.waiting

theorem notePending (nested : s.Nested text base given) (inside : 0 < s.cursor.column) :
    KeepsNesting text base given s.notePending := by
  unfold Lexer.notePending
  split
  · refine (dropPending_eq s).bind fun s' same => ?_
    subst same
    exact nested.note rfl inside
  · exact nested

/-- An indicator in block context opens a collection where that is deeper than the innermost one; then there are two
collections around it. -/
theorem openFor (nested : s.Nested text base given) (inside : 0 < s.cursor.column) (start : Token)
    (opens : ∀ n : Nest, n.after start = some n.wrap) (noKey : start ≠ .key) :
    Outcome.Meets (fun s' => ({ s' with pending := none } : Lexer).Nested text base given
        ∧ 1 < (⟨s'.indents.length, s'.outerPending.length⟩ : Nest).depth ∧ s'.pending = s.pending)
      (Fault.ExplainedBy text) (s.openFor start) := by
  unfold Lexer.openFor
  split
  · next inFlow =>
    refine ⟨nested.withoutPending, nested.one_lt_depth inside ?_, rfl⟩
    rw [Lexer.inFlow, Bool.not_eq_true'] at inFlow
    rw [inFlow, Bool.false_and]
  · next inBlock =>
    split
    · have top := outerPending_eq_nil (Bool.not_eq_true _ ▸ inBlock)
      unfold openBlock
      split
      · next deeper =>
        have deepest := lt_of_opensAt nested.sorted deeper
        refine ⟨nested.withoutPending.extend nested.cursor ?_ (List.mem_cons_of_mem _ nested.margin) rfl rfl
          (keysInner_singleton fun same => absurd same noKey) ((afterAll_singleton _ _).trans (opens _)) ?_ ?_, ?_, rfl⟩
        · exact List.pairwise_cons.2 ⟨deepest, nested.sorted⟩
        · exact fun key member => nested.withoutPending.kept key member
        · show Waiting _ _ _ s.outerPending
          rw [top]
          trivial
        · exact Nat.lt_add_right _ (Nat.succ_lt_succ (List.length_pos_of_mem nested.margin))
      · next closed =>
        refine ⟨nested.withoutPending, nested.one_lt_depth inside ?_, rfl⟩
        exact Bool.and_eq_false_iff.2 (Or.inr (Bool.not_eq_true _ ▸ closed))
    · exact Fault.malformed_explainedBy

/-- Tokens may be put before those from some place on, if what these close is still open then. -/
theorem insert (nested : s.Nested text base given) {count : Nat} {indents : List Nat} {n : Nest}
    (within : count ≤ s.queue.length) (front : Nest.outermost.afterAll (given ++ s.queue.take count) = some n)
    (sorted : indents.Pairwise (· > ·)) (margin : 0 ∈ indents) (keys : KeysInner n (more ++ s.queue.drop count))
    (nest : n.afterAll (more ++ s.queue.drop count) = some ⟨indents.length, s.outerPending.length⟩)
    (waiting : Waiting (nestAt base (given ++ s.queue)) (opensAt indents) (s.released + count) s.outerPending) :
    ({ s with
        indents
        queue := s.queue.take count ++ more ++ s.queue.drop count
        pending := none
        allowsKey := false } : Lexer).Nested text base given := by
  have split : given ++ s.queue = (given ++ s.queue.take count) ++ s.queue.drop count := by
    rw [List.append_assoc, List.take_append_drop]
  have split' : given ++ (s.queue.take count ++ more ++ s.queue.drop count)
      = (given ++ s.queue.take count) ++ (more ++ s.queue.drop count) := by
    simp only [List.append_assoc]
  have length : base + (given ++ s.queue.take count).length = s.released + count := by
    rw [nested.released, List.length_append, List.length_take_of_le within, Nat.add_assoc]
  have keysFront := nested.keys
  rw [split, keysInner_append_of_some front] at keysFront
  refine ⟨nested.cursor, sorted, margin, nested.released, ?_, ?_, fun key member => ?_, ?_⟩
  · show KeysInner _ (given ++ (s.queue.take count ++ more ++ s.queue.drop count))
    rw [split', keysInner_append_of_some front]
    exact ⟨keysFront.1, keys⟩
  · show Nest.afterAll _ (given ++ (s.queue.take count ++ more ++ s.queue.drop count)) = _
    rw [split', afterAll_append_of_some front]
    exact nest
  · exact nested.withoutPending.kept key member
  · refine waiting.imp ?_ (fun number below => ?_) fun _ opened => opened
    · show s.released + count ≤ s.released + (s.queue.take count ++ more ++ s.queue.drop count).length
      rw [List.length_append, List.length_append, List.length_take_of_le within]
      omega
    · rw [← length] at below
      rw [split', split, nestAt_append _ below, nestAt_append _ below]

/-- The key mark goes before the token that began the key, with the start of a mapping where the key opens one. -/
theorem markKey (nested : s.Nested text base given) (pending : s.pending = some key) :
    (s.markKey key).Nested text base given := by
  have kept : s.released ≤ key.number := nested.kept key (pending ▸ List.mem_cons_self)
  have waiting := nested.waiting
  rw [pending] at waiting
  obtain ⟨⟨within, n, found, deep, deeper⟩, below⟩ := waiting
  have short : key.number - s.released ≤ s.queue.length := by omega
  have front : (given ++ s.queue).take (key.number - base) = given ++ s.queue.take (key.number - s.released) := by
    have place : key.number - base = given.length + (key.number - s.released) := by
      rw [nested.released] at kept ⊢
      omega
    rw [place, List.take_length_add_append]
  rw [nestAt, front] at found
  have bound : s.released + (key.number - s.released) = key.number := Nat.add_sub_cancel' kept
  have keys := nested.keys
  have nest := nested.nest
  rw [← List.take_append_drop (key.number - s.released) s.queue, ← List.append_assoc] at keys nest
  rw [keysInner_append_of_some found] at keys
  rw [afterAll_append_of_some found] at nest
  unfold Lexer.markKey
  cases opens : !s.inFlow && s.isDeeper key.column with
  | true =>
    rw [Bool.and_eq_true, Bool.not_eq_true'] at opens
    have top := outerPending_eq_nil opens.1
    have opened : n.afterAll [.blockMappingStart, .key] = some n.wrap := rfl
    refine nested.insert short found (List.pairwise_cons.2 ⟨lt_of_opensAt nested.sorted opens.2, nested.sorted⟩)
      (List.mem_cons_of_mem _ nested.margin) ?_ ?_ ?_
    · refine (keysInner_append_of_some opened).2 ⟨⟨nofun, fun n' same => ?_⟩, keysInner_wrap keys.2 nest⟩
      cases same
      exact keysInner_singleton fun _ => (depth_wrap n).symm ▸ Nat.succ_lt_succ deep
    · exact (afterAll_append_of_some opened).trans (afterAll_wrap nest)
    · rw [top]
      trivial
  | false =>
    have closed : n.afterAll [.key] = some n := rfl
    have inner : 1 < n.depth := deeper (by rw [← opens, inFlow, Bool.not_not]; rfl)
    refine nested.insert short found nested.sorted nested.margin ?_ ?_ (bound.symm ▸ below)
    · exact (keysInner_append_of_some closed).2 ⟨keysInner_singleton fun _ => inner, keys.2⟩
    · exact (afterAll_append_of_some closed).trans nest

end Nested

/-! ## Cutting one token -/

section

variable {read : Cursor → Except Fault (Token × Cursor)}

/-- What may begin a key stands behind the margin. -/
theorem Nested.column_pos (nested : s.Nested text base given) (body : IsBody text)
    (solid : beginsNoKey s.cursor.peek = false) : 0 < s.cursor.column := by
  refine Nat.pos_of_ne_zero fun margin => ?_
  exact Bool.false_ne_true (solid.symm.trans (nested.cursor.beginsNoKey_peek body margin))

theorem keepsNesting_cutNode (nested : s.Nested text base given) (inside : 0 < s.cursor.column)
    (finds : ∀ c, c.Inside text → FindsNeutral text (read c)) : KeepsNesting text base given (s.cutNode read) := by
  refine (nested.notePending inside).bind fun s nested => (finds _ nested.cursor).bind fun found cut => ?_
  exact (nested.move nested.cursor false).pushAt cut.1 cut.2

end

theorem keepsNesting_cutFlowStart (nested : s.Nested text base given) (inside : 0 < s.cursor.column)
    (opens : ∀ n : Nest, n.after token = some ⟨n.blocks, n.flows + 1⟩) (noKey : token ≠ .key) :
    KeepsNesting text base given (s.cutFlowStart token) := by
  unfold cutFlowStart
  refine (nested.notePending inside).bind fun s nested => ?_
  refine nested.extend nested.cursor.next nested.sorted nested.margin rfl rfl
    (keysInner_singleton fun same => absurd same noKey) ((afterAll_singleton _ _).trans (opens _))
    (fun key member => nested.kept key ?_) nested.waiting
  exact (List.mem_cons.1 member).resolve_left nofun

/-- The end of a flow collection that is not open stops the reading, whatever comes behind. -/
theorem keepsOrBreaks_cutFlowEnd (nested : s.Nested text base given)
    (closes : ∀ n : Nest, n.after token = if n.flows = 0 then none else some ⟨n.blocks, n.flows - 1⟩)
    (noKey : token ≠ .key) :
    KeepsOrBreaks text base given (s.cutFlowEnd token) := by
  unfold cutFlowEnd
  refine (dropPending_eq s).bind fun s' same => ?_
  subst same
  have forgotten := nested.withoutPending
  have keys : KeysInner ⟨s.indents.length, s.outerPending.length⟩ [token] :=
    keysInner_singleton fun same => absurd same noKey
  have last := (afterAll_singleton ⟨s.indents.length, s.outerPending.length⟩ token).trans (closes _)
  by_cases levels : s.outerPending = []
  · rw [levels] at last
    have cut : given ++ (s.queue ++ [token]) = (given ++ s.queue) ++ [token] := (List.append_assoc _ _ _).symm
    refine Or.inr ⟨?_, ?_, ?_, ?_⟩
    · exact cut ▸ (keysInner_append_of_some nested.nest).2 ⟨nested.keys, keys⟩
    · refine (congrArg _ cut).trans ((afterAll_append_of_some nested.nest).trans ?_)
      rw [levels]
      exact last
    · show s.outerPending.head?.getD none = none
      rw [levels]
      rfl
    · show s.outerPending.tail = []
      rw [levels]
      rfl
  · obtain ⟨pending, outer, levels⟩ := List.exists_cons_of_ne_nil levels
    have list : s.outerPending.head?.getD none :: s.outerPending.tail = s.outerPending := by
      rw [levels]
      rfl
    refine Or.inl (forgotten.extend nested.cursor.next nested.sorted nested.margin rfl rfl keys (last.trans ?_) ?_ ?_)
    · rw [levels]
      rfl
    · exact fun key member => forgotten.kept key (List.mem_cons_of_mem _ (list ▸ member))
    · show Waiting _ _ _ (s.outerPending.head?.getD none :: s.outerPending.tail)
      rw [list]
      exact forgotten.waiting

theorem keepsNesting_cutFlowEntry (nested : s.Nested text base given) : KeepsNesting text base given s.cutFlowEntry :=
  nested.withoutPending.dropPending.bind fun _ nested =>
    (nested.move nested.cursor true).pushAt ⟨nofun, fun _ => rfl⟩ nested.cursor.next

theorem keepsNesting_cutBlockEntry (nested : s.Nested text base given) (inside : 0 < s.cursor.column) :
    KeepsNesting text base given s.cutBlockEntry := by
  have opened := nested.openFor inside .blockSequenceStart (fun _ => rfl) nofun
  refine opened.bind fun s opened => opened.1.dropPending.bind fun s nested => ?_
  exact (nested.move nested.cursor true).pushAt ⟨nofun, fun _ => rfl⟩ nested.cursor.next

theorem keepsNesting_cutKey (nested : s.Nested text base given) (inside : 0 < s.cursor.column) :
    KeepsNesting text base given s.cutKey := by
  have opened := nested.openFor inside .blockMappingStart (fun _ => rfl) nofun
  refine opened.bind fun s opened => (dropPending_eq s).bind fun s' same => ?_
  subst same
  exact opened.1.extend opened.1.cursor.next opened.1.sorted opened.1.margin rfl rfl
    (keysInner_singleton fun _ => opened.2.1) rfl opened.1.kept opened.1.waiting

theorem keepsNesting_cutValue (nested : s.Nested text base given) (inside : 0 < s.cursor.column) :
    KeepsNesting text base given s.cutValue := by
  unfold cutValue
  split
  · next key pending =>
    have marked := nested.markKey pending
    exact marked.pushAt ⟨nofun, fun _ => rfl⟩ marked.cursor.next
  · next absent =>
    refine (nested.openFor inside .blockMappingStart (fun _ => rfl) nofun).bind fun s' opened => ?_
    obtain ⟨nested, -, same⟩ := opened
    rw [absent] at same
    rw [← same] at nested
    exact (nested.move nested.cursor _).pushAt ⟨nofun, fun _ => rfl⟩ nested.cursor.next

theorem keepsNesting_cutPlain (nested : s.Nested text base given) (inside : 0 < s.cursor.column) :
    KeepsNesting text base given s.cutPlain := by
  refine (nested.notePending inside).bind fun s nested => ?_
  have found := Plain.standsIn_scan s.inFlow s.leastIndent nested.cursor
  exact (nested.move nested.cursor _).pushAt ⟨nofun, fun _ => rfl⟩ found.inside

theorem keepsNesting_cutBlockScalar (nested : s.Nested text base given) (folded : Bool) :
    KeepsNesting text base given (s.cutBlockScalar folded) := by
  refine nested.withoutPending.dropPending.bind fun s nested => ?_
  refine (BlockScalar.spells_scan folded s.leastIndent nested.cursor).bind fun word c _ after => ?_
  exact (nested.move nested.cursor true).pushAt ⟨nofun, fun _ => rfl⟩ after

theorem neutral_nameToken {of : List Char → Token} (neutral : ∀ name, (of name).IsNeutral) (inside : c.Inside text) :
    FindsNeutral text (nameToken of c) :=
  (Property.scans_name inside).map fun found after => ⟨neutral found.1, after⟩

theorem neutral_quotedToken (double : Bool) (inside : c.Inside text) : FindsNeutral text (quotedToken double c) :=
  (FlowScalar.spells_scan double inside).map fun _ spelled => ⟨⟨nofun, fun _ => rfl⟩, spelled.2⟩

theorem neutral_tag (inside : c.Inside text) : FindsNeutral text (Property.tag c) := by
  refine (Property.scans_tag inside).imp (fun found cut => ⟨?_, cut.2⟩) fun _ explained => explained
  obtain ⟨handle, suffix, tagged⟩ := cut.1
  rw [tagged]
  exact ⟨nofun, fun _ => rfl⟩

theorem beginsNoKey_of_startsPlain (starts : s.startsPlain = true) : beginsNoKey s.cursor.peek = false := by
  rw [← Bool.not_eq_true]
  intro keyless
  have notIndicator (ch : Char) (solid : beginsNoKey ch = false) : (s.cursor.peek == ch) = false :=
    beq_false_of_ne fun same => Bool.false_ne_true (solid.symm.trans (same ▸ keyless))
  have listed : (isBlankOrEnd s.cursor.peek
      || "-?:,[]\x7b\x7d#&*!|>'\"%@\x60".toList.contains s.cursor.peek) = true := by
    simp only [beginsNoKey, Bool.or_eq_true, beq_iff_eq, or_assoc] at keyless
    rcases keyless with blank | same | same | same | same | same | same
    · rw [blank, Bool.true_or]
    all_goals rw [same]; rfl
  simp only [startsPlain, listed, notIndicator '-' (by decide), notIndicator '?' (by decide),
    notIndicator ':' (by decide), Bool.not_true, Bool.or_false, Bool.and_false, Bool.false_eq_true] at starts

theorem keepsOrBreaks_cut (nested : s.Nested text base given) (body : IsBody text) :
    KeepsOrBreaks text base given s.cut := by
  have inside {ch : Char} (ahead : s.cursor.peek = ch) (solid : beginsNoKey ch = false) : 0 < s.cursor.column :=
    nested.column_pos body (ahead ▸ solid)
  have ahead {ch : Char} {more : Bool} (both : (s.cursor.peek == ch && more) = true) : s.cursor.peek = ch :=
    beq_iff_eq.1 (Bool.and_eq_true_iff.1 both).1
  have noMarker {ch : Char} {more : Bool} (solid : beginsNoKey ch = false)
      (both : (s.cursor.peek == ch && s.cursor.column == 0 && more) = true) : False := by
    have front := (Bool.and_eq_true_iff.1 both).1
    have margin : s.cursor.column = 0 := beq_iff_eq.1 (Bool.and_eq_true_iff.1 front).2
    exact Nat.ne_of_gt (inside (ahead front) solid) margin
  have ofNode {read : Cursor → Except Fault (Token × Cursor)} {ch : Char} (is : s.cursor.peek = ch)
      (solid : beginsNoKey ch = false)
      (finds : ∀ c, c.Inside text → FindsNeutral text (read c)) : KeepsOrBreaks text base given (s.cutNode read) :=
    (keepsNesting_cutNode nested (inside is solid) finds).orBreaks
  unfold cut
  dsimp only
  split
  · next is =>
    have noMargin := inside is (by decide)
    rw [if_neg (by simpa using Nat.pos_iff_ne_zero.1 noMargin)]
    exact Fault.malformed_explainedBy
  · next is => exact KeepsNesting.orBreaks (keepsNesting_cutFlowStart nested (inside is (by decide)) (fun _ => rfl) nofun)
  · next is => exact KeepsNesting.orBreaks (keepsNesting_cutFlowStart nested (inside is (by decide)) (fun _ => rfl) nofun)
  · exact keepsOrBreaks_cutFlowEnd nested (fun _ => rfl) nofun
  · exact keepsOrBreaks_cutFlowEnd nested (fun _ => rfl) nofun
  · exact (keepsNesting_cutFlowEntry nested).orBreaks
  · next is => exact ofNode is (by decide) fun _ => neutral_nameToken fun _ => ⟨nofun, fun _ => rfl⟩
  · next is => exact ofNode is (by decide) fun _ => neutral_nameToken fun _ => ⟨nofun, fun _ => rfl⟩
  · next is => exact ofNode is (by decide) fun _ => neutral_tag
  · next is => exact ofNode is (by decide) fun _ => neutral_quotedToken false
  · next is => exact ofNode is (by decide) fun _ => neutral_quotedToken true
  · split
    · next both => exact (noMarker (by decide) both).elim
    · split
      · next both => exact (noMarker (by decide) both).elim
      · split
        · next both => exact (keepsNesting_cutBlockEntry nested (inside (ahead both) (by decide))).orBreaks
        · split
          · next both => exact (keepsNesting_cutKey nested (inside (ahead both) (by decide))).orBreaks
          · split
            · next both => exact (keepsNesting_cutValue nested (inside (ahead both) (by decide))).orBreaks
            · split
              · exact (keepsNesting_cutBlockScalar nested false).orBreaks
              · split
                · exact (keepsNesting_cutBlockScalar nested true).orBreaks
                · split
                  · next starts =>
                    have solid := beginsNoKey_of_startsPlain starts
                    exact (keepsNesting_cutPlain nested (nested.column_pos body solid)).orBreaks
                  · exact Fault.malformed_explainedBy

/-! ## Cutting a text -/

theorem Broken.dropStale (broken : s.Broken given) : s.dropStale = .ok s := by
  obtain ⟨-, -, pending, outerPending⟩ := broken
  obtain ⟨cursor, indents, allowsKey, pending, outerPending, released, queue⟩ := s
  subst pending outerPending
  rfl

theorem Broken.releasable (broken : s.Broken given) : s.releasable = s.queue.length := by
  rw [Lexer.releasable, firstPending, broken.pending, broken.outerPending]
  rfl

/-- The end of the text closes collections, which are no key marks. -/
theorem meets_cutEnd (text : List Char) (s : Lexer) :
    Outcome.Meets (fun s' => ∃ more, s'.queue = s.queue ++ more ∧ ∀ token ∈ more, token ≠ .key)
      (Fault.ExplainedBy text) s.cutEnd := by
  have closed : ∃ more, s.closeAll.queue = s.queue ++ more ∧ ∀ token ∈ more, token ≠ .key := by
    unfold closeAll
    split
    · exact ⟨[], (List.append_nil _).symm, nofun⟩
    · refine ⟨_, rfl, fun token member => ?_⟩
      obtain ⟨-, -, rfl⟩ := List.mem_map.1 member
      exact nofun
  obtain ⟨more, queue, noKey⟩ := closed
  refine (dropPending_eq s.closeAll).bind fun s' same => ?_
  subst same
  refine ⟨more ++ [.streamEnd], ?_, List.forall_mem_append.2 ⟨noKey, List.forall_mem_singleton.2 nofun⟩⟩
  show s.closeAll.queue ++ [.streamEnd] = _
  rw [queue, List.append_assoc]

/-- Only tokens before every place where a key may have begun may be handed out. -/
theorem Nested.releasable (nested : s.Nested text base given) :
    s.releasable ≤ s.queue.length
      ∧ ∀ key, some key ∈ s.pending :: s.outerPending → s.released + s.releasable ≤ key.number := by
  have number_mem (key : PendingKey) (member : some key ∈ s.pending :: s.outerPending) :
      key.number ∈ (s.pending :: s.outerPending).filterMap (·.map PendingKey.number) :=
    List.mem_filterMap.2 ⟨some key, member, rfl⟩
  unfold Lexer.releasable
  cases first : s.firstPending with
  | none =>
    rw [firstPending, List.min?_eq_none_iff] at first
    refine ⟨Nat.le.refl, fun key member => ?_⟩
    have impossible := number_mem key member
    rw [first] at impossible
    cases impossible
  | some number =>
    obtain ⟨found, least⟩ := List.min?_eq_some_iff.1 first
    obtain ⟨place, member, same⟩ := List.mem_filterMap.1 found
    obtain ⟨key, rfl, rfl⟩ := Option.map_eq_some_iff.1 same
    have within := nested.waiting.le_of_mem member
    have kept := nested.kept key member
    dsimp only
    refine ⟨by omega, fun other otherMember => ?_⟩
    have := least _ (number_mem other otherMember)
    omega

theorem Nested.release (nested : s.Nested text base given) :
    (s.release s.releasable).Nested text base (given ++ s.queue.take s.releasable) := by
  obtain ⟨within, kept⟩ := nested.releasable
  have cut : given ++ s.queue.take s.releasable ++ s.queue.drop s.releasable = given ++ s.queue := by
    rw [List.append_assoc, List.take_append_drop]
  refine ⟨nested.cursor, nested.sorted, nested.margin, ?_, ?_, ?_, kept, ?_⟩
  · show s.released + s.releasable = _
    rw [nested.released, List.length_append, List.length_take_of_le within, Nat.add_assoc]
  · exact cut.symm ▸ nested.keys
  · exact (congrArg _ cut).trans nested.nest
  · show Waiting (nestAt base (given ++ s.queue.take s.releasable ++ s.queue.drop s.releasable)) _
      (s.released + s.releasable + (s.queue.drop s.releasable).length) _
    rw [cut, List.length_drop, Nat.add_assoc, Nat.add_sub_cancel' within]
    exact nested.waiting

theorem Nested.keysInner_given (nested : s.Nested text base given) : KeysInner .outermost (given ++ []) := by
  rw [List.append_nil]
  exact (keysInner_append.1 nested.keys).1

/-- The tokens that a nested state is cut into have their key marks inside. -/
theorem keysInner_run (nested : s.Nested text base given) (body : IsBody text) (fuel : Nat) :
    KeysInner .outermost (given ++ (run fuel s).1) := by
  induction fuel generalizing s given with
  | zero => exact nested.keysInner_given
  | succ fuel ih =>
    rw [run_succ]
    have arrived : KeepsNesting text base given s.toToken.dropStale := nested.toToken.dropStale
    generalize s.toToken.dropStale = arrival at arrived ⊢
    cases arrival with
    | error fault => exact nested.keysInner_given
    | ok s' =>
      have nested' : s'.closeDeeper.Nested text base given := Nested.closeDeeper arrived
      dsimp only
      split
      · have ended := meets_cutEnd text s'.closeDeeper
        generalize s'.closeDeeper.cutEnd = ending at ended ⊢
        cases ending with
        | error fault => exact nested.keysInner_given
        | ok s'' =>
          obtain ⟨more, queue, noKey⟩ := ended
          show KeysInner _ (given ++ s''.queue)
          rw [queue, ← List.append_assoc, keysInner_append_of_some nested'.nest]
          exact ⟨nested'.keys, keysInner_of_noKey noKey⟩
      · have cut : KeepsOrBreaks text base given (s'.closeDeeper.cut.bind dropStale) := by
          refine (keepsOrBreaks_cut nested' body).bind fun s'' found => ?_
          rcases found with nested | broken
          · exact nested.dropStale.orBreaks
          · rw [broken.dropStale]
            exact Or.inr broken
        generalize s'.closeDeeper.cut.bind dropStale = outcome at cut ⊢
        cases outcome with
        | error fault => exact nested.keysInner_given
        | ok s'' =>
          dsimp only
          rw [← List.append_assoc]
          rcases cut with nested | broken
          · exact ih nested.release
          · rw [broken.releasable, List.take_length, keysInner_append_of_none broken.nest]
            exact broken.keys

/-- Behind the colon of the key at the margin, nothing is cut yet. -/
theorem Nested.behind_colon (c : Cursor) : (free c [0] false 4 []).Nested c.rest 4 [] :=
  ⟨Cursor.Inside.here c, List.pairwise_singleton _ _, List.mem_singleton_self 0, rfl, trivial, rfl,
    fun _ member => (nomatch List.mem_singleton.1 member), trivial⟩

end Lexer

/-- The tokens behind the colon of a first key, in a text that has no other key at the margin. -/
theorem tokens_of_firstKey {key : Written} {rest : List Char} (sound : key.IsSound)
    (short : key.chars.length ≤ keyReach) (body : IsBody rest)
    (printable : (key.chars ++ ':' :: rest).all isPrintable = true) :
    ∃ more fault, tokens (key.chars ++ ':' :: rest)
        = ([.streamStart, .blockMappingStart, .key, key.token, .value] ++ more, fault)
      ∧ KeysInner .outermost more := by
  obtain ⟨fuel, length⟩ : ∃ fuel, (key.chars ++ ':' :: rest).length + 1 = fuel + 2 := by
    rw [List.length_append, List.length_cons]
    exact ⟨key.chars.length + rest.length, rfl⟩
  let first := Cursor.start (key.chars ++ ':' :: rest)
  let behind := Lexer.free (first.along (key.chars.length + 1) rest) [0] false 4 []
  have cut : Lexer.run (fuel + 2) { cursor := first }
      = ([.blockMappingStart, .key, key.token, .value] ++ (Lexer.run fuel behind).1, (Lexer.run fuel behind).2) :=
    Lexer.delivers_entry sound short rfl body.begins fuel
  refine ⟨(Lexer.run fuel behind).1, (Lexer.run fuel behind).2, ?_, ?_⟩
  · rw [tokens, if_pos printable, length, cut]
    rfl
  · exact Lexer.keysInner_run (.behind_colon (first.along (key.chars.length + 1) rest)) body fuel

end LayeredConfig.Yaml
