import LayeredConfig.Proofs.Yaml.ClearMargin
import LayeredConfig.Proofs.Yaml.RoundTrip

/-!
# A document of one entry

`rootNodes` are the nodes that stand right inside the root of a document. Where all key marks behind the colon of its first
key are inside another collection, these are that key and one value: the grammar gives no other node before the mapping ends
(`Machine.rootNodes_run`), and the walk over its events leaves one entry (`Walk.exists_value_of_run`). A text with a clear
margin behind the first key is such a document, `exists_value_of_read`.
-/

namespace LayeredConfig.Yaml

/-! ## The nodes of the root -/

/-- Whether an event begins a node. -/
def Event.begins : Event → Bool
  | .alias _ | .scalar .. | .sequenceStart _ | .mappingStart _ => true
  | _ => false

/-- How many collections are open behind an event. -/
def Event.depthAfter (depth : Nat) : Event → Nat
  | .sequenceStart _ | .mappingStart _ => depth + 1
  | .sequenceEnd | .mappingEnd => depth - 1
  | _ => depth

/-- The events up to the end of a document that begin a node right inside its root, where this many collections are open. -/
def rootNodes : Nat → List Event → List Event
  | _, [] => []
  | _, .documentEnd :: _ => []
  | depth, event :: rest =>
    (if depth = 1 && event.begins then [event] else []) ++ rootNodes (event.depthAfter depth) rest

theorem rootNodes_cons_eq_nil {depth : Nat} {event : Event} {rest : List Event} (goesOn : event ≠ .documentEnd) :
    rootNodes depth (event :: rest) = []
      ↔ (depth = 1 → event.begins = false) ∧ rootNodes (event.depthAfter depth) rest = [] := by
  rw [rootNodes, List.append_eq_nil_iff]
  · simp
  · exact goesOn

theorem rootNodes_eq_nil {depth : Nat} {event : Event} {rest : List Event} (deep : depth ≠ 1)
    (behind : rootNodes (event.depthAfter depth) rest = []) : rootNodes depth (event :: rest) = [] := by
  by_cases last : event = .documentEnd
  · rw [last]
    rfl
  · exact (rootNodes_cons_eq_nil last).2 ⟨fun same => absurd same deep, behind⟩

/-- The events of a text. -/
def eventsIn (text : List Char) : List Event :=
  (eventsOf (tokens text).1 (tokens text).2).1

/-! ## What is due inside the root -/

namespace Due

/-- Whether this is due behind a node of a collection. -/
def resumes : Due → Bool
  | .blockSequenceItem | .indentlessItem | .blockMappingKey | .blockMappingValue
  | .flowSequenceItem | .flowPairKey | .flowPairValue | .flowPairEnd
  | .flowMappingKey | .flowMappingValue | .flowMappingNoValue => true
  | _ => false

/-- The token that stands ahead where a collection begins. -/
def opener? : Due → Option Token
  | .blockSequenceStart => some .blockSequenceStart
  | .blockMappingStart => some .blockMappingStart
  | .flowSequenceStart => some .flowSequenceStart
  | .flowMappingStart => some .flowMappingStart
  | _ => none

/-- What is open when this is due inside of what is open already. -/
def enter (n : Nest) : Due → Nest
  | .blockSequenceItem | .blockMappingKey | .blockMappingValue => n.wrap
  | .flowSequenceItem | .flowPairKey | .flowPairValue | .flowPairEnd
  | .flowMappingKey | .flowMappingValue | .flowMappingNoValue => ⟨n.blocks, n.flows + 1⟩
  | _ => n

/-- How many collections the events have begun for what is due. -/
def depth : Due → Nat
  | .flowPairKey | .flowPairValue | .flowPairEnd => 2
  | .blockSequenceStart | .blockSequenceItem | .indentlessItem
  | .blockMappingStart | .blockMappingKey | .blockMappingValue
  | .flowSequenceStart | .flowSequenceItem
  | .flowMappingStart | .flowMappingKey | .flowMappingValue | .flowMappingNoValue => 1
  | _ => 0

end Due

/-- What is open by the tokens when these are due, innermost first. -/
def nestOf : List Due → Nest
  | [] => ⟨0, 0⟩
  | due :: outer => due.enter (nestOf outer)

/-- How many collections are open by the events when these are due. -/
def depthOf : List Due → Nat
  | [] => 0
  | due :: outer => depthOf outer + due.depth

/-- These are due inside the mapping at the root, where a key is due behind them. -/
def InRoot (dues : List Due) : Prop :=
  ∃ inner, dues = inner ++ [.blockMappingKey, .documentEnd] ∧ ∀ due ∈ inner, due.resumes = true

theorem InRoot.cons {dues : List Due} {due : Due} (inRoot : InRoot dues) (resumes : due.resumes = true) :
    InRoot (due :: dues) := by
  obtain ⟨inner, rfl, all⟩ := inRoot
  exact ⟨due :: inner, rfl, List.forall_mem_cons.2 ⟨resumes, all⟩⟩

/-- What is due is the next key at the root, or it is inside. -/
theorem InRoot.tail {dues : List Due} {due : Due} (inRoot : InRoot (due :: dues)) :
    due = .blockMappingKey ∧ dues = [.documentEnd] ∨ InRoot dues ∧ due.resumes = true := by
  obtain ⟨inner, same, all⟩ := inRoot
  cases inner with
  | nil =>
    cases same
    exact Or.inl ⟨rfl, rfl⟩
  | cons first inner =>
    cases same
    rw [List.forall_mem_cons] at all
    exact Or.inr ⟨⟨inner, rfl, all.2⟩, all.1⟩

theorem InRoot.depth_pos {dues : List Due} (inRoot : InRoot dues) : 0 < depthOf dues := by
  obtain ⟨inner, rfl, -⟩ := inRoot
  induction inner with
  | nil => exact Nat.one_pos
  | cons due inner ih => exact Nat.add_pos_left ih _

namespace Machine

/-- Everything that is due is inside the mapping at the root, and so are the keys that follow. -/
structure Inside (m : Machine) : Prop where
  inRoot : InRoot (m.due :: m.stack) ∨ InRoot m.stack ∧ ∃ opener rest, m.due.opener? = some opener
    ∧ m.tokens = opener :: rest
  keys : KeysInner (nestOf (m.due :: m.stack)) m.tokens

/-- A step gives a good event, where this many collections are open, and stays inside the root. -/
def Proceeds (good : Event → Prop) (depth : Nat) (step : Step) : Prop :=
  Outcome.Meets (fun found => good found.1 ∧ ∃ m, found.2 = some m ∧ m.Inside
    ∧ depthOf (m.due :: m.stack) = found.1.depthAfter depth) (fun _ => True) step

variable {good : Event → Prop} {depth : Nat} {fault : Fault} {m : Machine} {event : Event} {token : Token}
  {tokens rest : List Token} {due : Due}

theorem Inside.atRoot_or_inRoot (inside : m.Inside) :
    m.due = .blockMappingKey ∧ m.stack = [.documentEnd] ∨ InRoot m.stack := by
  rcases inside.inRoot with resumed | ⟨inRoot, -⟩
  · exact resumed.tail.imp id And.left
  · exact Or.inr inRoot

theorem Inside.resumes_or_opens (inside : m.Inside) :
    m.due.resumes = true ∨ ∃ opener rest, m.due.opener? = some opener ∧ m.tokens = opener :: rest := by
  rcases inside.inRoot with resumed | ⟨-, opened⟩
  · rcases resumed.tail with ⟨atKey, -⟩ | ⟨-, resumes⟩
    · exact Or.inl (atKey ▸ rfl)
    · exact Or.inl resumes
  · exact Or.inr opened

theorem Inside.depth_due_pos (inside : m.Inside) : 0 < m.due.depth := by
  rcases inside.resumes_or_opens with resumes | ⟨_, _, opens, -⟩
  · generalize m.due = due at resumes ⊢
    cases due <;> first | exact Nat.zero_lt_succ _ | cases resumes
  · generalize m.due = due at opens ⊢
    cases due <;> first | exact Nat.one_pos | cases opens

theorem Proceeds.weaken {step : Step} (proceeds : Proceeds good depth step) : Proceeds (fun _ => True) depth step :=
  Outcome.Meets.imp proceeds (fun _ found => ⟨trivial, found.2⟩) fun _ _ => trivial

theorem proceeds_give (fits : good event) (inRoot : InRoot (due :: m.stack))
    (keys : KeysInner (nestOf (due :: m.stack)) tokens) (deep : depthOf (due :: m.stack) = event.depthAfter depth) :
    Proceeds good depth (m.give event due tokens) :=
  ⟨fits, _, rfl, ⟨Or.inl inRoot, keys⟩, deep⟩

/-- The token that starts a collection is left for the next step. -/
theorem proceeds_open (fits : good event) (inRoot : InRoot m.stack) (opens : due.opener? = some token)
    (keys : KeysInner (nestOf m.stack) (token :: rest)) (deep : depthOf (due :: m.stack) = event.depthAfter depth) :
    Proceeds good depth (m.give event due (token :: rest)) := by
  refine ⟨fits, _, rfl, ⟨Or.inr ⟨inRoot, token, rest, opens, rfl⟩, ?_⟩, deep⟩
  have same : due.enter (nestOf m.stack) = nestOf m.stack := by
    cases due <;> first | rfl | cases opens
  show KeysInner (due.enter (nestOf m.stack)) (token :: rest)
  rw [same]
  exact keys

theorem proceeds_complete (fits : good event) (inRoot : InRoot m.stack) (keys : KeysInner (nestOf m.stack) tokens)
    (deep : depthOf m.stack = event.depthAfter depth) : Proceeds good depth (m.complete event tokens) := by
  unfold complete
  cases stack : m.stack with
  | nil =>
    rw [stack] at inRoot
    obtain ⟨inner, impossible, -⟩ := inRoot
    cases inner <;> cases impossible
  | cons due outer =>
    rw [stack] at inRoot keys deep
    exact ⟨fits, _, rfl, ⟨Or.inl inRoot, keys⟩, deep⟩

/-! ### Nodes -/

theorem keysInner_properties {n : Nest} {handles : List (List Char × List Char)} (keys : KeysInner n tokens) :
    Outcome.Meets (fun found => KeysInner n found.2) (fun _ => True) (properties fault handles tokens) := by
  have resolves {handle : Option (List Char)} {suffix : List Char} :
      Outcome.Meets (fun _ => True) (fun _ => True) (resolveTag handles handle suffix) := by
    cases resolveTag handles handle suffix <;> trivial
  unfold properties
  split
  · trivial
  · exact resolves.bind fun _ _ => (keys.2 n rfl).2 n rfl
  · exact keys.2 n rfl
  · trivial
  · exact resolves.bind fun _ _ => (keys.2 n rfl).2 n rfl
  · exact resolves.bind fun _ _ => keys.2 n rfl
  · exact keys

theorem begins_node (context : Context) (inRoot : InRoot m.stack) (keys : KeysInner (nestOf m.stack) tokens) :
    Proceeds (·.begins = true) (depthOf m.stack) (m.node fault context tokens) := by
  unfold node
  split
  · exact proceeds_complete rfl inRoot (keys.2 _ rfl) rfl
  · refine (keysInner_properties keys).bind fun found keys => ?_
    obtain ⟨properties, tokens⟩ := found
    dsimp only at keys
    show Proceeds (·.begins = true) (depthOf m.stack) _
    dsimp only
    split
    · trivial
    · exact proceeds_complete rfl inRoot (keys.2 _ rfl) rfl
    · exact proceeds_open rfl inRoot rfl keys rfl
    · exact proceeds_open rfl inRoot rfl keys rfl
    · next token rest _ _ _ =>
      split
      · exact proceeds_give rfl (inRoot.cons rfl) keys rfl
      · split
        · next opens =>
          obtain ⟨rfl, -⟩ := opens
          exact proceeds_open rfl inRoot rfl keys rfl
        · split
          · next opens =>
            obtain ⟨rfl, -⟩ := opens
            exact proceeds_open rfl inRoot rfl keys rfl
          · split
            · exact proceeds_complete rfl inRoot keys rfl
            · trivial

theorem begins_nodeOr (absent : Token → Bool) (context : Context) (due : Due) (inRoot : InRoot (due :: m.stack))
    (keys : KeysInner (nestOf (due :: m.stack)) tokens) :
    Proceeds (·.begins = true) (depthOf (due :: m.stack)) (m.nodeOr fault absent context due tokens) := by
  unfold nodeOr
  split
  · trivial
  · split
    · exact proceeds_give rfl inRoot keys rfl
    · exact begins_node context inRoot keys

/-! ### Collections -/

section

variable (inRoot : InRoot m.stack)

include inRoot

theorem proceeds_blockSequenceItem (keys : KeysInner (nestOf m.stack).wrap tokens) :
    Proceeds (fun _ => True) (depthOf m.stack + 1) (m.blockSequenceItem fault tokens) := by
  unfold blockSequenceItem
  split
  · trivial
  · exact (begins_nodeOr _ _ .blockSequenceItem (inRoot.cons rfl) (keys.2 _ rfl)).weaken
  · exact proceeds_complete trivial inRoot (keys.2 _ rfl) rfl
  · trivial

theorem proceeds_indentlessItem (keys : KeysInner (nestOf m.stack) tokens) :
    Proceeds (fun _ => True) (depthOf m.stack + 1) (m.indentlessItem fault tokens) := by
  unfold indentlessItem
  split
  · trivial
  · exact (begins_nodeOr _ _ .indentlessItem (inRoot.cons rfl) (keys.2 _ rfl)).weaken
  · exact proceeds_complete trivial inRoot keys rfl

theorem proceeds_blockMappingKey (keys : KeysInner (nestOf m.stack).wrap tokens) :
    Proceeds (fun _ => True) (depthOf m.stack + 1) (m.blockMappingKey fault tokens) := by
  unfold blockMappingKey
  split
  · trivial
  · exact (begins_nodeOr _ _ .blockMappingValue (inRoot.cons rfl) (keys.2 _ rfl)).weaken
  · exact proceeds_complete trivial inRoot (keys.2 _ rfl) rfl
  · trivial

theorem proceeds_blockMappingValue (keys : KeysInner (nestOf m.stack).wrap tokens) :
    Proceeds (fun _ => True) (depthOf m.stack + 1) (m.blockMappingValue fault tokens) := by
  unfold blockMappingValue
  split
  · trivial
  · exact (begins_nodeOr _ _ .blockMappingKey (inRoot.cons rfl) (keys.2 _ rfl)).weaken
  · exact proceeds_give trivial (inRoot.cons rfl) keys rfl

theorem proceeds_flowSequenceEntry
    (keys : KeysInner ⟨(nestOf m.stack).blocks, (nestOf m.stack).flows + 1⟩ tokens) :
    Proceeds (fun _ => True) (depthOf m.stack + 1) (m.flowSequenceEntry fault tokens) := by
  unfold flowSequenceEntry
  split
  · trivial
  · exact proceeds_give trivial (inRoot.cons rfl) (keys.2 _ rfl) rfl
  · exact proceeds_complete trivial inRoot (keys.2 _ rfl) rfl
  · exact Proceeds.weaken (begins_node (m := m.thenDue .flowSequenceItem) .flow (inRoot.cons rfl) keys)

theorem proceeds_flowSequenceItem
    (keys : KeysInner ⟨(nestOf m.stack).blocks, (nestOf m.stack).flows + 1⟩ tokens) :
    Proceeds (fun _ => True) (depthOf m.stack + 1) (m.flowSequenceItem fault tokens) := by
  unfold flowSequenceItem
  split
  · trivial
  · exact proceeds_complete trivial inRoot (keys.2 _ rfl) rfl
  · exact proceeds_flowSequenceEntry inRoot (keys.2 _ rfl)
  · trivial

theorem proceeds_flowPairValue
    (keys : KeysInner ⟨(nestOf m.stack).blocks, (nestOf m.stack).flows + 1⟩ tokens) :
    Proceeds (fun _ => True) (depthOf m.stack + 2) (m.flowPairValue fault tokens) := by
  unfold flowPairValue
  split
  · trivial
  · exact (begins_nodeOr _ _ .flowPairEnd (inRoot.cons rfl) (keys.2 _ rfl)).weaken
  · exact proceeds_give trivial (inRoot.cons rfl) keys rfl

theorem proceeds_flowMappingEntry
    (keys : KeysInner ⟨(nestOf m.stack).blocks, (nestOf m.stack).flows + 1⟩ tokens) :
    Proceeds (fun _ => True) (depthOf m.stack + 1) (m.flowMappingEntry fault tokens) := by
  unfold flowMappingEntry
  split
  · trivial
  · exact (begins_nodeOr _ _ .flowMappingValue (inRoot.cons rfl) (keys.2 _ rfl)).weaken
  · exact proceeds_complete trivial inRoot (keys.2 _ rfl) rfl
  · exact Proceeds.weaken (begins_node (m := m.thenDue .flowMappingNoValue) .flow (inRoot.cons rfl) keys)

theorem proceeds_flowMappingKey
    (keys : KeysInner ⟨(nestOf m.stack).blocks, (nestOf m.stack).flows + 1⟩ tokens) :
    Proceeds (fun _ => True) (depthOf m.stack + 1) (m.flowMappingKey fault tokens) := by
  unfold flowMappingKey
  split
  · trivial
  · exact proceeds_complete trivial inRoot (keys.2 _ rfl) rfl
  · exact proceeds_flowMappingEntry inRoot (keys.2 _ rfl)
  · trivial

theorem proceeds_flowMappingValue
    (keys : KeysInner ⟨(nestOf m.stack).blocks, (nestOf m.stack).flows + 1⟩ tokens) :
    Proceeds (fun _ => True) (depthOf m.stack + 1) (m.flowMappingValue fault tokens) := by
  unfold flowMappingValue
  split
  · trivial
  · exact (begins_nodeOr _ _ .flowMappingKey (inRoot.cons rfl) (keys.2 _ rfl)).weaken
  · exact proceeds_give trivial (inRoot.cons rfl) keys rfl

end

/-! ### The machine -/

/-- Inside the collections of the root, a step gives an event of a node and stays inside the root. -/
theorem proceeds_step (inRoot : InRoot m.stack) (inside : m.Inside) :
    Proceeds (fun _ => True) (depthOf (m.due :: m.stack)) (m.step fault) := by
  have known := inside.resumes_or_opens
  have keys := inside.keys
  obtain ⟨due, stack, tokens, handles⟩ := m
  cases tokens with
  | nil => cases due <;> trivial
  | cons token rest =>
    dsimp only at inRoot keys known
    replace known : due.resumes = true ∨ due.opener? = some token := by
      rcases known with resumes | ⟨opener, more, opens, ahead⟩
      · exact Or.inl resumes
      · cases ahead
        exact Or.inr opens
    cases due with
    | streamStart | firstDocument | nextDocument | documentContent | documentEnd | blockNode =>
      rcases known with impossible | impossible <;> cases impossible
    | blockSequenceStart =>
      cases known.resolve_left nofun
      exact proceeds_blockSequenceItem (m := ⟨_, stack, _, handles⟩) inRoot (keys.2 _ rfl)
    | blockSequenceItem => exact proceeds_blockSequenceItem (m := ⟨_, stack, _, handles⟩) inRoot keys
    | indentlessItem => exact proceeds_indentlessItem (m := ⟨_, stack, _, handles⟩) inRoot keys
    | blockMappingStart =>
      cases known.resolve_left nofun
      exact proceeds_blockMappingKey (m := ⟨_, stack, _, handles⟩) inRoot (keys.2 _ rfl)
    | blockMappingKey => exact proceeds_blockMappingKey (m := ⟨_, stack, _, handles⟩) inRoot keys
    | blockMappingValue => exact proceeds_blockMappingValue (m := ⟨_, stack, _, handles⟩) inRoot keys
    | flowSequenceStart =>
      cases known.resolve_left nofun
      exact proceeds_flowSequenceEntry (m := ⟨_, stack, _, handles⟩) inRoot (keys.2 _ rfl)
    | flowSequenceItem => exact proceeds_flowSequenceItem (m := ⟨_, stack, _, handles⟩) inRoot keys
    | flowPairKey =>
      exact Proceeds.weaken (begins_nodeOr (m := ⟨_, stack, _, handles⟩) _ .flow .flowPairValue (inRoot.cons rfl) keys)
    | flowPairValue => exact proceeds_flowPairValue (m := ⟨_, stack, _, handles⟩) inRoot keys
    | flowPairEnd =>
      exact proceeds_give (m := ⟨_, stack, _, handles⟩) trivial (inRoot.cons rfl) keys rfl
    | flowMappingStart =>
      cases known.resolve_left nofun
      exact proceeds_flowMappingEntry (m := ⟨_, stack, _, handles⟩) inRoot (keys.2 _ rfl)
    | flowMappingKey => exact proceeds_flowMappingKey (m := ⟨_, stack, _, handles⟩) inRoot keys
    | flowMappingValue => exact proceeds_flowMappingValue (m := ⟨_, stack, _, handles⟩) inRoot keys
    | flowMappingNoValue =>
      exact proceeds_give (m := ⟨_, stack, _, handles⟩) trivial (inRoot.cons rfl) keys rfl

/-- Behind the value at the root nothing else begins before the document ends. -/
theorem rootNodes_run_atRoot {tokens : List Token} {handles : List (List Char × List Char)}
    (keys : KeysInner .outermost tokens) (fuel : Nat) :
    rootNodes 1 (run fault fuel ⟨.blockMappingKey, [.documentEnd], tokens, handles⟩).1 = [] := by
  have ending (fuel : Nat) (tokens : List Token) :
      rootNodes 0 (run fault fuel ⟨.documentEnd, [], tokens, handles⟩).1 = [] := by
    cases fuel with
    | zero => rfl
    | succ fuel => cases tokens <;> rfl
  cases fuel with
  | zero => rfl
  | succ fuel =>
    cases tokens with
    | nil => rfl
    | cons token rest =>
      cases token with
      | key => exact absurd (keys.1 rfl) (Nat.lt_irrefl 1)
      | blockEnd => exact ending fuel rest
      | _ => rfl

/-- No further node begins right inside the root. -/
theorem rootNodes_run (inside : m.Inside) (fuel : Nat) :
    rootNodes (depthOf (m.due :: m.stack)) (run fault fuel m).1 = [] := by
  induction fuel generalizing m with
  | zero => rfl
  | succ fuel ih =>
    rcases inside.atRoot_or_inRoot with ⟨atKey, last⟩ | inRoot
    · have keys := inside.keys
      obtain ⟨due, stack, tokens, handles⟩ := m
      cases atKey
      cases last
      exact rootNodes_run_atRoot keys (fuel + 1)
    · -- Two collections are open, so that the next event stands deeper than the nodes of the root.
      have deep : depthOf (m.due :: m.stack) ≠ 1 :=
        Nat.ne_of_gt (Nat.add_le_add inRoot.depth_pos inside.depth_due_pos)
      have proceeds : Proceeds (fun _ => True) (depthOf (m.due :: m.stack)) (m.step fault) :=
        proceeds_step inRoot inside
      rw [run]
      cases steps : m.step fault with
      | error f => rfl
      | ok found =>
        rw [steps] at proceeds
        obtain ⟨event, next⟩ := found
        obtain ⟨-, next, same, inside, depth⟩ := proceeds
        cases same
        dsimp only at depth ⊢
        exact rootNodes_eq_nil deep (depth ▸ ih inside)

theorem events_of_step {next : Machine} (steps : m.step fault = .ok (event, some next)) (fuel : Nat) :
    (run fault (fuel + 1) m).1 = event :: (run fault fuel next).1 := by
  rw [run, steps]

end Machine

/-- These events begin with a node, after which no node begins right inside the root; or there are none. -/
def IsLoneNode (events : List Event) : Prop :=
  ∀ first rest, events = first :: rest → first.begins = true ∧ rootNodes (first.depthAfter 1) rest = []

/-- The events of a document whose key marks behind its first key are all inside another collection. -/
theorem eventsOf_firstKey (key : Written) {more : List Token} (keys : KeysInner .outermost more) (fault : Option Fault) :
    ∃ behind, (eventsOf ([.streamStart, .blockMappingStart, .key, key.token, .value] ++ more) fault).1
        = [.streamStart, .documentStart, .mappingStart {}, key.event] ++ behind
      ∧ IsLoneNode behind := by
  let fuel := 5 * ([.streamStart, .blockMappingStart, .key, key.token, .value] ++ more).length
  let atValue : Machine := ⟨.blockMappingValue, [.documentEnd], .value :: more, Machine.standardHandles⟩
  refine ⟨(Machine.run (fault.getD .malformed) (fuel + 1) atValue).1, ?_, ?_⟩
  · unfold eventsOf
    rw [Machine.events_of_step rfl, Machine.events_of_step rfl, Machine.events_of_step rfl,
      Machine.events_of_step rfl]
    rfl
  · have inRoot : InRoot [.blockMappingKey, .documentEnd] := ⟨[], rfl, List.forall_mem_nil _⟩
    have begins : Machine.Proceeds (·.begins = true) 1 (atValue.step (fault.getD .malformed)) :=
      Machine.begins_nodeOr (m := ⟨.blockMappingValue, [.documentEnd], .value :: more, Machine.standardHandles⟩)
        _ .mappingValue .blockMappingKey inRoot keys
    intro first rest same
    rw [Machine.run] at same
    cases steps : atValue.step (fault.getD .malformed) with
    | error f =>
      rw [steps] at same
      cases same
    | ok found =>
      rw [steps] at begins same
      obtain ⟨event, next⟩ := found
      obtain ⟨begins, next, present, inside, depth⟩ := begins
      cases present
      cases same
      dsimp only at begins depth
      exact ⟨begins, depth ▸ Machine.rootNodes_run inside fuel⟩

/-! ## The tree -/

namespace Walk

variable {source key : String} {fault : Fault} {walk : Walk} {frames : List Frame} {event : Event} {events : List Event}
  {tree : Tree}

/-- The root has one entry: its value is not complete, and this many collections are open, or nothing is to follow. -/
def HoldsEntry (key : String) (depth : Nat) : Walk → Prop
  | .inside frames => (∃ inner, frames = inner ++ [.mapping [] (some key)] ∧ depth = inner.length + 1)
    ∨ ∃ value, frames = [.mapping [(key, value)] none] ∧ depth = 1
  | .afterRoot root | .afterDocument root | .done root => ∃ value, root = .mapping [(key, value)]
  | _ => False

theorem holdsEntry_deliver {node : Tree} {inner : List Frame}
    (delivers : deliver source node (inner ++ [.mapping [] (some key)]) = .ok walk) :
    walk.HoldsEntry key (inner.length + 1) := by
  cases inner with
  | nil =>
    cases delivers
    exact Or.inr ⟨node, rfl, rfl⟩
  | cons frame inner =>
    have goesOn (frame : Frame) :
        (Walk.inside (frame :: (inner ++ [.mapping [] (some key)]))).HoldsEntry key (inner.length + 1 + 1) :=
      Or.inl ⟨frame :: inner, rfl, rfl⟩
    cases frame with
    | sequence items =>
      cases delivers
      exact goesOn _
    | mapping entries pending =>
      cases pending with
      | some pending =>
        cases delivers
        exact goesOn _
      | none =>
        cases node with
        | string text =>
          cases delivers
          exact goesOn _
        | null | bool | int | double | sequence | mapping => cases delivers

/-- An event of the value at the root. -/
theorem holdsEntry_of_value (inner : List Frame)
    (steps : stepInside source (inner ++ [.mapping [] (some key)]) event = .ok walk) :
    walk.HoldsEntry key (event.depthAfter (inner.length + 1)) := by
  generalize opened : inner ++ [Frame.mapping [] (some key)] = frames at steps
  unfold stepInside at steps
  split at steps
  · cases steps
  · subst opened
    obtain ⟨-, -, steps⟩ := Outcome.bind_eq_ok.1 steps
    obtain ⟨node, -, steps⟩ := Outcome.bind_eq_ok.1 steps
    exact holdsEntry_deliver steps
  · subst opened
    obtain ⟨-, -, steps⟩ := Outcome.bind_eq_ok.1 steps
    cases steps
    exact Or.inl ⟨.sequence [] :: inner, rfl, rfl⟩
  · subst opened
    obtain ⟨-, -, steps⟩ := Outcome.bind_eq_ok.1 steps
    cases steps
    exact Or.inl ⟨.mapping [] none :: inner, rfl, rfl⟩
  · cases inner with
    | nil => cases opened
    | cons frame inner =>
      cases opened
      exact holdsEntry_deliver steps
  · cases inner with
    | nil => cases opened
    | cons frame inner =>
      cases opened
      exact holdsEntry_deliver steps
  · cases steps

/-- Behind the value at the root only the end of the mapping is left. -/
theorem holdsEntry_of_end {value : Tree} (ends : event.begins = false)
    (steps : stepInside source [.mapping [(key, value)] none] event = .ok walk) (depth : Nat) :
    walk.HoldsEntry key depth := by
  cases event with
  | mappingEnd =>
    cases steps
    exact ⟨value, rfl⟩
  | «alias» | scalar | sequenceStart | mappingStart => cases ends
  | streamStart | streamEnd | documentStart | documentEnd | sequenceEnd => cases steps

/-- Behind the root, nothing changes the tree. -/
theorem eq_of_run_complete {root : Tree}
    (complete : walk = .afterRoot root ∨ walk = .afterDocument root ∨ walk = .done root)
    (runs : walk.run source fault events = .ok tree) : tree = root := by
  induction events generalizing walk with
  | nil =>
    rcases complete with rfl | rfl | rfl
    · cases runs
    · cases runs
    · cases runs
      rfl
  | cons event rest ih =>
    rw [run] at runs
    obtain ⟨after, steps, runs⟩ := Outcome.bind_eq_ok.1 runs
    refine ih ?_ runs
    rcases complete with rfl | rfl | rfl
    · cases event <;> cases steps
      exact Or.inr (Or.inl rfl)
    · cases event <;> cases steps
      exact Or.inr (Or.inr rfl)
    · cases steps
      exact Or.inr (Or.inr rfl)

theorem exists_value_of_run {depth : Nat} (holds : walk.HoldsEntry key depth) (lone : rootNodes depth events = [])
    (runs : walk.run source fault events = .ok tree) : ∃ value, tree = .mapping [(key, value)] := by
  induction events generalizing walk depth with
  | nil =>
    cases walk with
    | done root =>
      cases runs
      exact holds
    | beforeStream | beforeDocument | inside | afterRoot | afterDocument => cases runs
  | cons event rest ih =>
    cases walk with
    | beforeStream | beforeDocument => exact holds.elim
    | afterRoot root =>
      obtain ⟨value, rfl⟩ := holds
      exact ⟨value, eq_of_run_complete (Or.inl rfl) runs⟩
    | afterDocument root =>
      obtain ⟨value, rfl⟩ := holds
      exact ⟨value, eq_of_run_complete (Or.inr (Or.inl rfl)) runs⟩
    | done root =>
      obtain ⟨value, rfl⟩ := holds
      exact ⟨value, eq_of_run_complete (Or.inr (Or.inr rfl)) runs⟩
    | inside frames =>
      rw [run] at runs
      obtain ⟨after, steps, follows⟩ := Outcome.bind_eq_ok.1 runs
      have goesOn : event ≠ .documentEnd := by
        rintro rfl
        cases steps
      rw [rootNodes_cons_eq_nil goesOn] at lone
      rcases holds with ⟨inner, rfl, rfl⟩ | ⟨value, rfl, rfl⟩
      · exact ih (holdsEntry_of_value inner steps) lone.2 follows
      · exact ih (holdsEntry_of_end (lone.1 rfl) steps _) lone.2 follows

end Walk

theorem all_isPrintable_of_read {source : String} {text : List Char} {tree : Tree}
    (reads : read source text = .ok tree) : text.all isPrintable = true := by
  by_contra unprintable
  rw [read, tokens, if_neg unprintable] at reads
  cases reads

theorem exists_run_of_read {source : String} {text : List Char} {tree : Tree} (reads : read source text = .ok tree) :
    ∃ fault, Walk.beforeStream.run source fault (eventsIn text) = .ok tree :=
  ⟨(eventsOf (tokens text).1 (tokens text).2).2.getD .malformed, reads⟩

/-- A text that begins with a key and has a clear margin behind it is read as a mapping with one entry, which is written as
that key and one node. -/
theorem exists_value_of_read {key : Written} {name source : String} {rest : List Char} {tree : Tree}
    (back : Scalar.ReadsBack key (.string name)) (short : key.chars.length ≤ keyReach) (body : IsBody rest)
    (reads : read source (key.chars ++ ':' :: rest) = .ok tree) :
    (∃ value, tree = .mapping [(name, value)])
      ∧ ∃ first, rootNodes 0 (eventsIn (key.chars ++ ':' :: rest)) = [key.event, first] := by
  obtain ⟨more, fault, cut, keys⟩ := tokens_of_firstKey back.sound short body (all_isPrintable_of_read reads)
  obtain ⟨behind, events, lone⟩ := eventsOf_firstKey key keys fault
  have found : eventsIn (key.chars ++ ':' :: rest)
      = [.streamStart, .documentStart, .mappingStart {}, key.event] ++ behind := by
    rw [eventsIn, cut]
    exact events
  obtain ⟨last, runs⟩ := exists_run_of_read reads
  rw [found] at runs ⊢
  have entered : (Walk.inside [.mapping [] (some name)]).run source last behind = .ok tree := by
    rw [← runs]
    refine ((Walk.run_cons rfl).trans <| (Walk.run_cons rfl).trans <| (Walk.run_cons rfl).trans ?_).symm
    exact Walk.run_scalar back rfl
  cases behind with
  | nil => cases entered
  | cons first others =>
    obtain ⟨begins, quiet⟩ := lone first others rfl
    have goesOn : first ≠ .documentEnd := by
      rintro rfl
      cases begins
    constructor
    · rw [Walk.run] at entered
      obtain ⟨after, steps, follows⟩ := Outcome.bind_eq_ok.1 entered
      exact Walk.exists_value_of_run (Walk.holdsEntry_of_value [] steps) quiet follows
    · refine ⟨first, ?_⟩
      show key.event :: rootNodes 1 (first :: others) = _
      rw [rootNodes, begins, quiet]
      · rfl
      · exact goesOn

end LayeredConfig.Yaml
