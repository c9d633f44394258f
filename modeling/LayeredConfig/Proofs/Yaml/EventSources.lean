import LayeredConfig.Proofs.Yaml.TokenSources
import LayeredConfig.Yaml.Event.Grammar

/-!
# Where events come from

The grammar hands the texts of scalars on as they are: every scalar of an event is one of the tokens or is plain and
empty, and every fault is a refusal or the one that stood behind the tokens. So the events of a text come from that text,
as its tokens do: `traces_events`.
-/

namespace LayeredConfig.Yaml

variable {text : List Char}

/-- An event is no scalar, or a legible one that stands in the text as it is if it is plain and has no blanks. -/
def Event.StandsIn (text : List Char) (event : Event) : Prop :=
  ∀ properties word style, event = .scalar properties word style →
    Legible text word ∧ (style = .plain → (∀ ch ∈ word, isBlankOrEnd ch = false) → word <:+: text)

/-- A scalar that is left out is empty, and so stands in every text. -/
theorem Event.standsIn_empty (properties : Properties) : (Event.scalar properties [] .plain).StandsIn text := by
  intro _ word style same
  cases same
  exact ⟨.nil, fun _ _ => List.nil_infix⟩

namespace Machine

/-- Tokens that all stand in the text. -/
def TokensStand (text : List Char) (tokens : List Token) : Prop :=
  ∀ token ∈ tokens, token.StandsIn text

/-- A step gives an event that stands in the text, and leaves tokens that do, or fails with a fault that the text
explains. -/
def Keeps (text : List Char) (step : Step) : Prop :=
  Outcome.Meets (fun found => found.1.StandsIn text ∧ ∀ m ∈ found.2, TokensStand text m.tokens)
    (Fault.ExplainedBy text) step

variable {fault : Fault} {m : Machine} {event : Event} {token : Token} {tokens : List Token}

theorem TokensStand.tail (stand : TokensStand text (token :: tokens)) : TokensStand text tokens :=
  (List.forall_mem_cons.1 stand).2

theorem keeps_malformed : Keeps text (.error .malformed) :=
  Fault.malformed_explainedBy

theorem keeps_give (due : Due) (stands : event.StandsIn text) (stand : TokensStand text tokens) :
    Keeps text (m.give event due tokens) := by
  refine ⟨stands, fun m same => ?_⟩
  cases same
  exact stand

theorem keeps_complete (stands : event.StandsIn text) (stand : TokensStand text tokens) :
    Keeps text (m.complete event tokens) := by
  unfold complete
  split
  · exact keeps_malformed
  · refine ⟨stands, fun m same => ?_⟩
    cases same
    exact stand

/-! ## Nodes -/

theorem resolveTag_explained (handles : List (List Char × List Char)) (handle : Option (List Char))
    (suffix : List Char) :
    Outcome.Meets (fun _ => True) (Fault.ExplainedBy text) (resolveTag handles handle suffix) := by
  unfold resolveTag
  repeat' split
  all_goals first | exact trivial | exact Fault.malformed_explainedBy

theorem properties_stand (explained : fault.ExplainedBy text) (handles : List (List Char × List Char))
    (stand : TokensStand text tokens) :
    Outcome.Meets (fun found => TokensStand text found.2) (Fault.ExplainedBy text)
      (properties fault handles tokens) := by
  unfold properties
  split
  · exact explained
  · exact (resolveTag_explained ..).bind fun _ _ => stand.tail.tail
  · exact stand.tail
  · exact explained
  · exact (resolveTag_explained ..).bind fun _ _ => stand.tail.tail
  · exact (resolveTag_explained ..).bind fun _ _ => stand.tail
  · exact stand

theorem keeps_node (explained : fault.ExplainedBy text) (context : Context) (stand : TokensStand text tokens) :
    Keeps text (m.node fault context tokens) := by
  unfold node
  split
  · exact keeps_complete nofun stand.tail
  · refine (properties_stand explained m.handles stand).bind fun found stand => ?_
    obtain ⟨properties, tokens⟩ := found
    dsimp only at stand ⊢
    split
    · exact explained
    · next word style rest =>
      refine keeps_complete (fun _ other style' same => ?_) stand.tail
      cases same
      exact stand _ List.mem_cons_self word style rfl
    · exact keeps_give _ nofun stand
    · exact keeps_give _ nofun stand
    · repeat' split
      · exact keeps_give _ nofun stand
      · exact keeps_give _ nofun stand
      · exact keeps_give _ nofun stand
      · exact keeps_complete (Event.standsIn_empty _) stand
      · exact keeps_malformed

theorem keeps_nodeOr (explained : fault.ExplainedBy text) (absent : Token → Bool) (context : Context) (due : Due)
    (stand : TokensStand text tokens) : Keeps text (m.nodeOr fault absent context due tokens) := by
  unfold nodeOr
  split
  · exact explained
  · split
    · exact keeps_give _ (Event.standsIn_empty _) stand
    · exact keeps_node explained context stand

/-! ## Documents -/

theorem directives_stand (explained : fault.ExplainedBy text) (versioned : Bool)
    (handles : List (List Char × List Char)) (stand : TokensStand text tokens) :
    Outcome.Meets (fun found => TokensStand text found.2) (Fault.ExplainedBy text)
      (directives fault versioned handles tokens) := by
  fun_induction directives fault versioned handles tokens with
  | case1 => exact explained
  | case2 => exact Fault.malformed_explainedBy
  | case3 _ _ _ _ _ _ ih => exact ih stand.tail
  | case4 => exact Fault.malformed_explainedBy
  | case5 _ _ _ _ _ _ ih => exact ih stand.tail
  | case6 _ _ _ ih => exact ih stand.tail
  | case7 => exact stand

theorem keeps_nextDocument (explained : fault.ExplainedBy text) (stand : TokensStand text tokens) :
    Keeps text (m.nextDocument fault tokens) := by
  have behind : TokensStand text (tokens.dropWhile (· == .documentEnd)) :=
    fun token member => stand token ((List.dropWhile_suffix _).mem member)
  unfold nextDocument
  generalize tokens.dropWhile (· == .documentEnd) = ahead at behind ⊢
  split
  · exact explained
  · exact ⟨nofun, nofun⟩
  · refine (directives_stand explained false [] behind).bind fun found stand => ?_
    obtain ⟨handles, tokens⟩ := found
    dsimp only at stand ⊢
    split
    · exact keeps_give _ nofun stand.tail
    · exact keeps_malformed

/-! ## Collections -/

theorem keeps_blockSequenceItem (explained : fault.ExplainedBy text) (stand : TokensStand text tokens) :
    Keeps text (m.blockSequenceItem fault tokens) := by
  unfold blockSequenceItem
  split
  · exact explained
  · exact keeps_nodeOr explained _ _ _ stand.tail
  · exact keeps_complete nofun stand.tail
  · exact keeps_malformed

theorem keeps_indentlessItem (explained : fault.ExplainedBy text) (stand : TokensStand text tokens) :
    Keeps text (m.indentlessItem fault tokens) := by
  unfold indentlessItem
  split
  · exact explained
  · exact keeps_nodeOr explained _ _ _ stand.tail
  · exact keeps_complete nofun stand

theorem keeps_blockMappingKey (explained : fault.ExplainedBy text) (stand : TokensStand text tokens) :
    Keeps text (m.blockMappingKey fault tokens) := by
  unfold blockMappingKey
  split
  · exact explained
  · exact keeps_nodeOr explained _ _ _ stand.tail
  · exact keeps_complete nofun stand.tail
  · exact keeps_malformed

theorem keeps_blockMappingValue (explained : fault.ExplainedBy text) (stand : TokensStand text tokens) :
    Keeps text (m.blockMappingValue fault tokens) := by
  unfold blockMappingValue
  split
  · exact explained
  · exact keeps_nodeOr explained _ _ _ stand.tail
  · exact keeps_give _ (Event.standsIn_empty _) stand

theorem keeps_flowSequenceEntry (explained : fault.ExplainedBy text) (stand : TokensStand text tokens) :
    Keeps text (m.flowSequenceEntry fault tokens) := by
  unfold flowSequenceEntry
  split
  · exact explained
  · exact keeps_give _ nofun stand.tail
  · exact keeps_complete nofun stand.tail
  · exact keeps_node explained _ stand

theorem keeps_flowSequenceItem (explained : fault.ExplainedBy text) (stand : TokensStand text tokens) :
    Keeps text (m.flowSequenceItem fault tokens) := by
  unfold flowSequenceItem
  split
  · exact explained
  · exact keeps_complete nofun stand.tail
  · exact keeps_flowSequenceEntry explained stand.tail
  · exact keeps_malformed

theorem keeps_flowPairValue (explained : fault.ExplainedBy text) (stand : TokensStand text tokens) :
    Keeps text (m.flowPairValue fault tokens) := by
  unfold flowPairValue
  split
  · exact explained
  · exact keeps_nodeOr explained _ _ _ stand.tail
  · exact keeps_give _ (Event.standsIn_empty _) stand

theorem keeps_flowMappingEntry (explained : fault.ExplainedBy text) (stand : TokensStand text tokens) :
    Keeps text (m.flowMappingEntry fault tokens) := by
  unfold flowMappingEntry
  split
  · exact explained
  · exact keeps_nodeOr explained _ _ _ stand.tail
  · exact keeps_complete nofun stand.tail
  · exact keeps_node explained _ stand

theorem keeps_flowMappingKey (explained : fault.ExplainedBy text) (stand : TokensStand text tokens) :
    Keeps text (m.flowMappingKey fault tokens) := by
  unfold flowMappingKey
  split
  · exact explained
  · exact keeps_complete nofun stand.tail
  · exact keeps_flowMappingEntry explained stand.tail
  · exact keeps_malformed

theorem keeps_flowMappingValue (explained : fault.ExplainedBy text) (stand : TokensStand text tokens) :
    Keeps text (m.flowMappingValue fault tokens) := by
  unfold flowMappingValue
  split
  · exact explained
  · exact keeps_nodeOr explained _ _ _ stand.tail
  · exact keeps_give _ (Event.standsIn_empty _) stand

/-! ## The machine -/

theorem keeps_step (explained : fault.ExplainedBy text) (stand : TokensStand text m.tokens) :
    Keeps text (m.step fault) := by
  obtain ⟨due, stack, tokens, handles⟩ := m
  cases tokens with
  | nil => cases due <;> exact explained
  | cons token rest =>
    cases due with
    | streamStart => exact keeps_give _ nofun stand.tail
    | firstDocument =>
      unfold step
      dsimp only
      split
      · exact keeps_nextDocument explained stand
      · exact keeps_nextDocument explained stand
      · exact keeps_nextDocument explained stand
      · exact keeps_give _ nofun stand
    | nextDocument => exact keeps_nextDocument explained stand
    | documentContent =>
      unfold step
      dsimp only
      split
      · exact keeps_complete (Event.standsIn_empty _) stand
      · exact keeps_complete (Event.standsIn_empty _) stand
      · exact keeps_complete (Event.standsIn_empty _) stand
      · exact keeps_complete (Event.standsIn_empty _) stand
      · exact keeps_node explained _ stand
    | documentEnd =>
      refine keeps_give _ nofun ?_
      split
      · exact stand.tail
      · exact stand
    | blockNode => exact keeps_node explained _ stand
    | blockSequenceStart => exact keeps_blockSequenceItem explained stand.tail
    | blockSequenceItem => exact keeps_blockSequenceItem explained stand
    | indentlessItem => exact keeps_indentlessItem explained stand
    | blockMappingStart => exact keeps_blockMappingKey explained stand.tail
    | blockMappingKey => exact keeps_blockMappingKey explained stand
    | blockMappingValue => exact keeps_blockMappingValue explained stand
    | flowSequenceStart => exact keeps_flowSequenceEntry explained stand.tail
    | flowSequenceItem => exact keeps_flowSequenceItem explained stand
    | flowPairKey => exact keeps_nodeOr explained _ _ _ stand
    | flowPairValue => exact keeps_flowPairValue explained stand
    | flowPairEnd => exact keeps_give _ nofun stand
    | flowMappingStart => exact keeps_flowMappingEntry explained stand.tail
    | flowMappingKey => exact keeps_flowMappingKey explained stand
    | flowMappingValue => exact keeps_flowMappingValue explained stand
    | flowMappingNoValue => exact keeps_give _ (Event.standsIn_empty _) stand

theorem traces_run (explained : fault.ExplainedBy text) (fuel : Nat) (stand : TokensStand text m.tokens) :
    Traces text (Event.StandsIn text) (run fault fuel m) := by
  induction fuel generalizing m with
  | zero => exact traces_fault Fault.malformed_explainedBy
  | succ fuel ih =>
    unfold run
    have steps : Keeps text (m.step fault) := keeps_step explained stand
    generalize m.step fault = outcome at steps ⊢
    cases outcome with
    | error f => exact traces_fault steps
    | ok found =>
      obtain ⟨event, next⟩ := found
      have first : ∀ other ∈ [event], other.StandsIn text := List.forall_mem_singleton.2 steps.1
      cases next with
      | none => exact traces_all first
      | some m => exact (ih (steps.2 m rfl)).append first

end Machine

/-- The events of a text come from it, and it explains the fault behind them. -/
theorem traces_events (text : List Char) :
    Traces text (Event.StandsIn text) (eventsOf (tokens text).1 (tokens text).2) :=
  have cut := traces_tokens text
  Machine.traces_run cut.explainedBy_getD _ cut.1

end LayeredConfig.Yaml
