import LayeredConfig.Proofs.Yaml.TreeTokens
import LayeredConfig.Yaml.Event.Grammar

/-!
# The events of a tree

`nodeEvents` are the events of a node as it is written. `eventsOf_blockTokens` says that the tokens of a tree give its
events: the machine goes over the tokens of a node, gives its events, and is then where what was due behind it is due.
-/

namespace LayeredConfig.Yaml

/-- The event of a written scalar. -/
def Written.event (written : Written) : Event :=
  .scalar {} written.text written.style

mutual

/-- The events of a node. -/
def nodeEvents : Tree → List Event
  | .mapping entries => .mappingStart {} :: (entryEvents entries ++ [.mappingEnd])
  | .sequence items => .sequenceStart {} :: (itemEvents items ++ [.sequenceEnd])
  | .null => [(Written.ofScalar .null).event]
  | .bool value => [(Written.ofScalar (.bool value)).event]
  | .int value => [(Written.ofScalar (.int value)).event]
  | .double value => [(Written.ofScalar (.double value)).event]
  | .string text => [(Written.ofScalar (.string text)).event]

/-- The events of entries, one after another. -/
def entryEvents : List (String × Tree) → List Event
  | [] => []
  | (key, value) :: rest =>
    (Written.ofText key.toList true).event :: (nodeEvents value ++ entryEvents rest)

/-- The events of items, one after another. -/
def itemEvents : List Tree → List Event
  | [] => []
  | item :: rest => nodeEvents item ++ itemEvents rest

end

mutual

/-- No node has more events than tokens. -/
theorem length_nodeEvents_le : (tree : Tree) → (nodeEvents tree).length ≤ (blockTokens tree).length
  | .null => Nat.le_refl _
  | .bool _ => Nat.le_refl _
  | .int _ => Nat.le_refl _
  | .double _ => Nat.le_refl _
  | .string _ => Nat.le_refl _
  | .sequence [] => Nat.le_refl _
  | .mapping [] => Nat.le_refl _
  | .sequence (item :: rest) => by
    have below := length_itemEvents_le (item :: rest)
    simp only [nodeEvents, blockTokens, List.length_cons, List.length_append]
    omega
  | .mapping (entry :: rest) => by
    have below := length_entryEvents_le (entry :: rest)
    simp only [nodeEvents, blockTokens, List.length_cons, List.length_append]
    omega

theorem length_itemEvents_le : (items : List Tree) →
    (itemEvents items).length ≤ (itemTokens items).length
  | [] => Nat.le_refl _
  | item :: rest => by
    have first := length_nodeEvents_le item
    have others := length_itemEvents_le rest
    simp only [itemEvents, itemTokens, List.length_cons, List.length_append]
    omega

theorem length_entryEvents_le : (entries : List (String × Tree)) →
    (entryEvents entries).length ≤ (entryTokens entries).length
  | [] => Nat.le_refl _
  | (key, value) :: rest => by
    have first := length_nodeEvents_le value
    have others := length_entryEvents_le rest
    simp only [entryEvents, entryTokens, keyLead, Lead.tokens, List.length_cons, List.length_append,
      List.length_nil]
    omega

end

/-- No node begins with a token that says that it is left out. -/
theorem exists_head_blockTokens (tree : Tree) (more : List Token) :
    ∃ token rest, blockTokens tree ++ more = token :: rest ∧ Machine.endsBlockItem token = false
      ∧ Machine.endsBlockPart token = false := by
  cases tree with
  | sequence items => cases items <;> exact ⟨_, _, rfl, rfl, rfl⟩
  | mapping entries => cases entries <;> exact ⟨_, _, rfl, rfl, rfl⟩
  | null | bool | int | double | string => exact ⟨_, _, rfl, rfl, rfl⟩

namespace Machine

variable {fault : Fault} {due : Due} {stack : List Due} {rest : List Token}
  {handles : List (List Char × List Char)} {events : List Event}

/-- A machine gives exactly these events and ends with the stream, whatever fuel is left. -/
def Gives (fault : Fault) (m : Machine) (events : List Event) : Prop :=
  ∀ fuel, events.length ≤ fuel → run fault fuel m = (events, none)

theorem Gives.of_step {m n : Machine} {event : Event} (steps : m.step fault = .ok (event, some n))
    (next : n.Gives fault events) : m.Gives fault (event :: events) := by
  intro fuel enough
  cases fuel with
  | zero => exact absurd enough (Nat.not_succ_le_zero _)
  | succ fuel =>
    have behind := next fuel (Nat.le_of_succ_le_succ enough)
    rw [run, steps]
    simp only [behind]

theorem Gives.of_last {m : Machine} {event : Event} (steps : m.step fault = .ok (event, none)) :
    m.Gives fault [event] := by
  intro fuel enough
  cases fuel with
  | zero => exact absurd enough (Nat.not_succ_le_zero _)
  | succ fuel =>
    rw [run, steps]

/-- A scalar is one event. -/
theorem Gives.of_scalar {m : Machine} {c : Context} {written : Written} {t : List Token} {d : Due}
    (next : (Machine.mk due stack rest handles).Gives fault events)
    (steps : m.step fault = (Machine.mk d (due :: stack) t handles).node fault c
      (written.token :: rest)) :
    m.Gives fault (written.event :: events) :=
  Gives.of_step (steps.trans rfl) next

/-- What is due in a collection is due as soon as any token is left. -/
theorem step_of_ne_nil {toks : List Token} (some : toks ≠ []) :
    (Machine.mk .blockSequenceItem stack toks handles).step fault
        = (Machine.mk .blockSequenceItem stack toks handles).blockSequenceItem fault toks
      ∧ (Machine.mk .blockMappingKey stack toks handles).step fault
        = (Machine.mk .blockMappingKey stack toks handles).blockMappingKey fault toks := by
  cases toks with
  | nil => exact absurd rfl some
  | cons token toks => exact ⟨rfl, rfl⟩

theorem nodeOr_blockTokens {m : Machine} {absent : Token → Bool} {context : Context} {tree : Tree}
    (ends : absent = endsBlockItem ∨ absent = endsBlockPart) :
    m.nodeOr fault absent context due (blockTokens tree ++ rest)
      = (m.thenDue due).node fault context (blockTokens tree ++ rest) := by
  obtain ⟨token, more, head, noItem, noPart⟩ := exists_head_blockTokens tree rest
  have stays : absent token = false := by
    rcases ends with rfl | rfl
    · exact noItem
    · exact noPart
  rw [head, nodeOr, stays]
  rfl

mutual

/-- A node gives its events, and then what is due behind it is due. -/
theorem Gives.of_node {m : Machine} {c : Context} {t rest : List Token} {d due : Due}
    {stack : List Due} {events : List Event} (block : c ≠ .flow)
    (next : (Machine.mk due stack rest handles).Gives fault events) : (tree : Tree) →
    m.step fault = (Machine.mk d (due :: stack) t handles).node fault c
      (blockTokens tree ++ rest) →
    m.Gives fault (nodeEvents tree ++ events)
  | .null, steps => Gives.of_scalar next steps
  | .bool _, steps => Gives.of_scalar next steps
  | .int _, steps => Gives.of_scalar next steps
  | .double _, steps => Gives.of_scalar next steps
  | .string _, steps => Gives.of_scalar next steps
  | .sequence [], steps => by
    refine Gives.of_step (steps.trans rfl) ?_
    exact Gives.of_step rfl next
  | .mapping [], steps => by
    refine Gives.of_step (steps.trans rfl) ?_
    exact Gives.of_step rfl next
  | .sequence (item :: others), steps => by
    refine Gives.of_step (n := ⟨.blockSequenceStart, due :: stack,
      blockTokens (.sequence (item :: others)) ++ rest, handles⟩) (steps.trans ?_) ?_
    · cases c with
      | flow => exact absurd rfl block
      | block => rfl
      | mappingValue => rfl
    · have given := Gives.of_items next (item :: others) (m := ⟨.blockSequenceStart, due :: stack,
        blockTokens (.sequence (item :: others)) ++ rest, handles⟩)
        (t := blockTokens (.sequence (item :: others)) ++ rest) (d := .blockSequenceStart) (by
          simp only [blockTokens, List.cons_append, List.append_assoc, List.nil_append]
          rfl)
      simpa using given
  | .mapping (entry :: others), steps => by
    refine Gives.of_step (n := ⟨.blockMappingStart, due :: stack,
      blockTokens (.mapping (entry :: others)) ++ rest, handles⟩) (steps.trans ?_) ?_
    · cases c with
      | flow => exact absurd rfl block
      | block => rfl
      | mappingValue => rfl
    · have given := Gives.of_entries next (entry :: others) (m := ⟨.blockMappingStart, due :: stack,
        blockTokens (.mapping (entry :: others)) ++ rest, handles⟩)
        (t := blockTokens (.mapping (entry :: others)) ++ rest) (d := .blockMappingStart) (by
          simp only [blockTokens, List.cons_append, List.append_assoc, List.nil_append]
          rfl)
      simpa using given

/-- The items of a sequence give their events, and then the sequence ends. -/
theorem Gives.of_items {m : Machine} {t rest : List Token} {d due : Due} {stack : List Due}
    {events : List Event} (next : (Machine.mk due stack rest handles).Gives fault events) :
    (items : List Tree) →
    m.step fault = (Machine.mk d (due :: stack) t handles).blockSequenceItem fault
      (itemTokens items ++ (.blockEnd :: rest)) →
    m.Gives fault (itemEvents items ++ (.sequenceEnd :: events))
  | [], steps => Gives.of_step steps next
  | item :: others, steps => by
    have behind := Gives.of_items next others (m := ⟨.blockSequenceItem, due :: stack,
      itemTokens others ++ (.blockEnd :: rest), handles⟩) (step_of_ne_nil (by simp)).1
    rw [itemEvents, List.append_assoc]
    refine Gives.of_node (c := .block) (d := d) (t := t) nofun behind item ?_
    rw [steps, itemTokens, List.cons_append, List.append_assoc]
    exact nodeOr_blockTokens (Or.inl rfl)

/-- The entries of a mapping give their events, and then the mapping ends. -/
theorem Gives.of_entries {m : Machine} {t rest : List Token} {d due : Due} {stack : List Due}
    {events : List Event} (next : (Machine.mk due stack rest handles).Gives fault events) :
    (entries : List (String × Tree)) →
    m.step fault = (Machine.mk d (due :: stack) t handles).blockMappingKey fault
      (entryTokens entries ++ (.blockEnd :: rest)) →
    m.Gives fault (entryEvents entries ++ (.mappingEnd :: events))
  | [], steps => Gives.of_step steps next
  | (key, value) :: others, steps => by
    have behind := Gives.of_entries next others (m := ⟨.blockMappingKey, due :: stack,
      entryTokens others ++ (.blockEnd :: rest), handles⟩) (step_of_ne_nil (by simp)).2
    rw [entryEvents, List.cons_append, List.append_assoc]
    have atValue : (Machine.mk .blockMappingValue (due :: stack)
        (.value :: (blockTokens value ++ (entryTokens others ++ (.blockEnd :: rest)))) handles).Gives fault
        (nodeEvents value ++ (entryEvents others ++ (.mappingEnd :: events))) :=
      Gives.of_node (c := .mappingValue) nofun behind value (nodeOr_blockTokens (Or.inr rfl))
    refine Gives.of_scalar (c := .mappingValue) (d := d) (t := t) atValue ?_
    rw [steps]
    simp only [entryTokens, keyLead, Lead.tokens, List.cons_append, List.nil_append, List.append_assoc]
    rfl

end

/-- A document without a marker begins with its node. -/
theorem step_firstDocument (tree : Tree) (more : List Token) :
    (Machine.mk .firstDocument [] (blockTokens tree ++ more) []).step fault
      = .ok (.documentStart, some ⟨.blockNode, [.documentEnd], blockTokens tree ++ more,
        standardHandles⟩) := by
  cases tree with
  | sequence items => cases items <;> rfl
  | mapping entries => cases entries <;> rfl
  | null | bool | int | double | string => rfl

/-- The machine goes over a document that is one node. -/
theorem Gives.of_document (tree : Tree) :
    (Machine.mk .streamStart [] (.streamStart :: (blockTokens tree ++ [.streamEnd])) []).Gives fault
      (.streamStart :: .documentStart :: (nodeEvents tree ++ [.documentEnd, .streamEnd])) := by
  refine Gives.of_step rfl ?_
  have last : (Machine.mk .documentEnd [] [.streamEnd] standardHandles).Gives fault
      [.documentEnd, .streamEnd] := Gives.of_step rfl (Gives.of_last rfl)
  refine Gives.of_step (step_firstDocument tree _) ?_
  refine Gives.of_node (c := .block) (d := .blockNode) (t := blockTokens tree ++ [.streamEnd])
    nofun last tree ?_
  obtain ⟨token, more, head, -, -⟩ := exists_head_blockTokens tree [.streamEnd]
  rw [head]
  rfl

end Machine

/-- The tokens of a text of one node give the events of that node. -/
theorem eventsOf_blockTokens (tree : Tree) :
    eventsOf (.streamStart :: (blockTokens tree ++ [.streamEnd])) none
      = (.streamStart :: .documentStart :: (nodeEvents tree ++ [.documentEnd, .streamEnd]), none) := by
  have few := length_nodeEvents_le tree
  refine Machine.Gives.of_document tree _ ?_
  simp only [List.length_cons, List.length_append, List.length_nil]
  omega

end LayeredConfig.Yaml
