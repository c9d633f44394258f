import LayeredConfig.Proofs.Yaml.Lexing
import LayeredConfig.Proofs.Yaml.Scanning

/-!
# Where tokens come from

Every scalar that is cut from a text is legible, a plain one stands in that text as it is, unless it has blanks, and the
text explains the fault that stopped the cutting: `traces_tokens`. What each step keeps is that the cursor stays inside
the text and that the tokens which are held back come from it (`Lexer.Sound`).
-/

namespace LayeredConfig.Yaml

variable {text : List Char}

namespace Lexer

/-- The cursor is inside the text, and the tokens that are held back come from it. -/
structure Sound (text : List Char) (s : Lexer) : Prop where
  cursor : s.cursor.Inside text
  queue : ∀ token ∈ s.queue, token.StandsIn text

/-- A step ends in a sound state, or fails with a fault that the text explains. -/
def Keeps (text : List Char) (outcome : Except Fault Lexer) : Prop :=
  Outcome.Meets (Sound text) (Fault.ExplainedBy text) outcome

theorem keeps_malformed : Keeps text (.error .malformed) :=
  Fault.malformed_explainedBy

variable {s : Lexer} {token : Token} {c : Cursor}

namespace Sound

theorem push (sound : s.Sound text) (stands : token.StandsIn text) : (s.push token).Sound text :=
  ⟨sound.cursor, List.forall_mem_append.2 ⟨sound.queue, List.forall_mem_singleton.2 stands⟩⟩

theorem pushAt (sound : s.Sound text) (stands : token.StandsIn text) (inside : c.Inside text) :
    (s.pushAt token c).Sound text :=
  ⟨inside, (sound.push stands).queue⟩

/-- Whether a key may begin is no matter of what has been cut. -/
theorem allow (sound : s.Sound text) (keys : Bool) : ({ s with allowsKey := keys } : Lexer).Sound text :=
  ⟨sound.cursor, sound.queue⟩

theorem closeWhile (sound : s.Sound text) (closes : Nat → Bool) : (s.closeWhile closes).Sound text := by
  refine ⟨sound.cursor, List.forall_mem_append.2 ⟨sound.queue, fun token member => ?_⟩⟩
  obtain ⟨-, -, rfl⟩ := List.mem_map.1 member
  exact nofun

theorem closeDeeper (sound : s.Sound text) : s.closeDeeper.Sound text := by
  unfold Lexer.closeDeeper
  split
  · exact sound
  · exact sound.closeWhile _

theorem closeAll (sound : s.Sound text) : s.closeAll.Sound text := by
  unfold Lexer.closeAll
  split
  · exact sound
  · exact sound.closeWhile _

theorem openBlock (sound : s.Sound text) (stands : token.StandsIn text) : (s.openBlock token).Sound text := by
  unfold Lexer.openBlock
  split
  · exact ⟨sound.cursor, (sound.push stands).queue⟩
  · exact sound

theorem skipToToken (sound : s.Sound text) (fuel : Nat) : (skipToToken fuel s).Sound text := by
  induction fuel generalizing s with
  | zero => exact sound
  | succ fuel ih =>
    unfold Lexer.skipToToken
    dsimp only
    split
    · exact ih ⟨sound.cursor.skipComment.takeBreak, sound.queue⟩
    · exact ⟨sound.cursor.skipComment, sound.queue⟩

theorem toToken (sound : s.Sound text) : s.toToken.Sound text := by
  unfold Lexer.toToken
  dsimp only
  apply skipToToken
  refine ⟨?_, sound.queue⟩
  dsimp only
  split
  · exact sound.cursor.next
  · exact sound.cursor

theorem markKey (sound : s.Sound text) (key : PendingKey) : (s.markKey key).Sound text := by
  refine ⟨sound.cursor, List.forall_mem_append.2 ⟨List.forall_mem_append.2 ⟨?_, ?_⟩, ?_⟩⟩
  · exact fun token member => sound.queue token (List.mem_of_mem_take member)
  · split
    · exact List.forall_mem_cons.2 ⟨nofun, List.forall_mem_singleton.2 nofun⟩
    · exact List.forall_mem_singleton.2 nofun
  · exact fun token member => sound.queue token (List.mem_of_mem_drop member)

theorem release (sound : s.Sound text) (count : Nat) : (s.release count).Sound text :=
  ⟨sound.cursor, fun token member => sound.queue token (List.mem_of_mem_drop member)⟩

theorem dropPending (sound : s.Sound text) : Keeps text s.dropPending := by
  unfold Lexer.dropPending
  split
  · split
    · exact keeps_malformed
    · exact ⟨sound.cursor, sound.queue⟩
  · exact sound

theorem dropStale (sound : s.Sound text) : Keeps text s.dropStale := by
  have each (key : Option PendingKey) :
      Outcome.Meets (fun _ => True) (Fault.ExplainedBy text) (dropIfStale s.cursor key) := by
    unfold dropIfStale
    repeat' split
    all_goals first | exact trivial | exact Fault.malformed_explainedBy
  refine (each s.pending).bind fun _ _ => ?_
  refine (Outcome.meets_mapM fun key _ => each key).bind fun _ _ => ?_
  exact ⟨sound.cursor, sound.queue⟩

theorem notePending (sound : s.Sound text) : Keeps text s.notePending := by
  unfold Lexer.notePending
  split
  · exact sound.dropPending.bind fun s sound => ⟨sound.cursor, sound.queue⟩
  · exact sound

theorem openFor (sound : s.Sound text) (stands : token.StandsIn text) : Keeps text (s.openFor token) := by
  unfold Lexer.openFor
  split
  · exact sound
  · split
    · exact sound.openBlock stands
    · exact keeps_malformed

end Sound

/-! ## Cutting one token -/

section

variable {read : Cursor → Except Fault (Token × Cursor)}

theorem keeps_cutBoundary (sound : s.Sound text) (finds : ∀ c, c.Inside text → Finds text (read c)) :
    Keeps text (s.cutBoundary read) := by
  refine sound.closeAll.dropPending.bind fun s sound => (finds _ sound.cursor).bind fun found cut => ?_
  exact (sound.allow _).pushAt cut.1 cut.2

theorem keeps_cutNode (sound : s.Sound text) (finds : ∀ c, c.Inside text → Finds text (read c)) :
    Keeps text (s.cutNode read) := by
  refine sound.notePending.bind fun s sound => (finds _ sound.cursor).bind fun found cut => ?_
  exact (sound.allow _).pushAt cut.1 cut.2

end

theorem keeps_cutFlowStart (sound : s.Sound text) (stands : token.StandsIn text) :
    Keeps text (s.cutFlowStart token) := by
  unfold cutFlowStart
  refine sound.notePending.bind fun s sound => ?_
  have pushed := sound.pushAt stands sound.cursor.next
  exact ⟨pushed.cursor, pushed.queue⟩

theorem keeps_cutFlowEnd (sound : s.Sound text) (stands : token.StandsIn text) :
    Keeps text (s.cutFlowEnd token) := by
  unfold cutFlowEnd
  refine sound.dropPending.bind fun s sound => ?_
  have pushed := sound.pushAt stands sound.cursor.next
  exact ⟨pushed.cursor, pushed.queue⟩

theorem keeps_cutFlowEntry (sound : s.Sound text) : Keeps text s.cutFlowEntry :=
  sound.dropPending.bind fun _ sound => (sound.allow _).pushAt nofun sound.cursor.next

theorem keeps_cutBlockEntry (sound : s.Sound text) : Keeps text s.cutBlockEntry := by
  have opened : Keeps text (s.openFor .blockSequenceStart) := sound.openFor nofun
  refine opened.bind fun s sound => sound.dropPending.bind fun s sound => ?_
  exact (sound.allow _).pushAt nofun sound.cursor.next

theorem keeps_cutKey (sound : s.Sound text) : Keeps text s.cutKey := by
  have opened : Keeps text (s.openFor .blockMappingStart) := sound.openFor nofun
  refine opened.bind fun s sound => sound.dropPending.bind fun s sound => ?_
  exact (sound.allow _).pushAt nofun sound.cursor.next

theorem keeps_cutValue (sound : s.Sound text) : Keeps text s.cutValue := by
  unfold cutValue
  split
  · next key _ => exact (sound.markKey key).pushAt nofun sound.cursor.next
  · have opened : Keeps text (s.openFor .blockMappingStart) := sound.openFor nofun
    refine opened.bind fun s sound => ?_
    exact (sound.allow _).pushAt nofun sound.cursor.next

theorem keeps_cutPlain (sound : s.Sound text) : Keeps text s.cutPlain := by
  refine sound.notePending.bind fun s sound => ?_
  have found := Plain.standsIn_scan s.inFlow s.leastIndent sound.cursor
  refine (sound.allow _).pushAt (fun word style same => ?_) found.inside
  cases same
  exact ⟨found.legible, fun _ => found.stands⟩

theorem keeps_cutBlockScalar (sound : s.Sound text) (folded : Bool) : Keeps text (s.cutBlockScalar folded) := by
  refine sound.dropPending.bind fun s sound => ?_
  refine (BlockScalar.spells_scan folded s.leastIndent sound.cursor).bind fun word c legible after => ?_
  refine (sound.allow _).pushAt (fun _ style same => ?_) after
  cases same
  exact ⟨legible, fun plain => by cases folded <;> cases plain⟩

theorem finds_nameToken {of : List Char → Token} (other : ∀ name word style, of name ≠ .scalar word style)
    (inside : c.Inside text) : Finds text (nameToken of c) :=
  (Property.scans_name inside).map fun found after =>
    ⟨fun word style same => absurd same (other found.1 word style), after⟩

theorem finds_quotedToken (double : Bool) (inside : c.Inside text) : Finds text (quotedToken double c) := by
  refine (FlowScalar.spells_scan double inside).map fun found spelled => ⟨fun _ style same => ?_, spelled.2⟩
  cases same
  exact ⟨spelled.1, fun plain => by cases double <;> cases plain⟩

theorem keeps_cut (sound : s.Sound text) : Keeps text s.cut := by
  unfold cut
  dsimp only
  split
  · split
    · exact keeps_cutBoundary sound fun _ inside => Property.finds_directive inside
    · exact keeps_malformed
  · exact keeps_cutFlowStart sound nofun
  · exact keeps_cutFlowStart sound nofun
  · exact keeps_cutFlowEnd sound nofun
  · exact keeps_cutFlowEnd sound nofun
  · exact keeps_cutFlowEntry sound
  · exact keeps_cutNode sound fun _ inside => finds_nameToken nofun inside
  · exact keeps_cutNode sound fun _ inside => finds_nameToken nofun inside
  · exact keeps_cutNode sound fun _ inside => Property.finds_tag inside
  · exact keeps_cutNode sound fun _ inside => finds_quotedToken false inside
  · exact keeps_cutNode sound fun _ inside => finds_quotedToken true inside
  · split
    · exact keeps_cutBoundary sound fun _ inside => ⟨nofun, inside.skip 3⟩
    · split
      · exact keeps_cutBoundary sound fun _ inside => ⟨nofun, inside.skip 3⟩
      · split
        · exact keeps_cutBlockEntry sound
        · split
          · exact keeps_cutKey sound
          · split
            · exact keeps_cutValue sound
            · split
              · exact keeps_cutBlockScalar sound false
              · split
                · exact keeps_cutBlockScalar sound true
                · split
                  · exact keeps_cutPlain sound
                  · exact keeps_malformed

theorem keeps_cutEnd (sound : s.Sound text) : Keeps text s.cutEnd :=
  sound.closeAll.dropPending.bind fun _ sound => sound.push nofun

end Lexer

/-! ## Cutting a text -/

/-- Items of a good kind, and a fault behind them, if any, that the text explains. -/
def Traces {α : Type} (text : List Char) (good : α → Prop) (result : List α × Option Fault) : Prop :=
  (∀ item ∈ result.1, good item) ∧ ∀ fault ∈ result.2, fault.ExplainedBy text

section

variable {α : Type} {good : α → Prop} {items : List α} {fault : Fault} {result : List α × Option Fault}

theorem traces_fault (explained : fault.ExplainedBy text) : Traces text good ([], some fault) := by
  refine ⟨List.forall_mem_nil good, fun other same => ?_⟩
  cases same
  exact explained

theorem traces_all (all : ∀ item ∈ items, good item) : Traces text good (items, none) :=
  ⟨all, nofun⟩

theorem Traces.append (rest : Traces text good result) (all : ∀ item ∈ items, good item) :
    Traces text good (items ++ result.1, result.2) :=
  ⟨List.forall_mem_append.2 ⟨all, rest.1⟩, rest.2⟩

/-- What stands behind the items is explained, too, where that is a refusal if nothing is said. -/
theorem Traces.explainedBy_getD (traces : Traces text good result) :
    (result.2.getD .malformed).ExplainedBy text := by
  cases behind : result.2 with
  | none => exact Fault.malformed_explainedBy
  | some fault => exact traces.2 fault behind

end

theorem Lexer.traces_run {s : Lexer} (sound : s.Sound text) (fuel : Nat) :
    Traces text (Token.StandsIn text) (run fuel s) := by
  induction fuel generalizing s with
  | zero => exact traces_fault Fault.malformed_explainedBy
  | succ fuel ih =>
    rw [run_succ]
    have arrived : Keeps text s.toToken.dropStale := sound.toToken.dropStale
    generalize s.toToken.dropStale = arrival at arrived ⊢
    cases arrival with
    | error fault => exact traces_fault arrived
    | ok s' =>
      have sound : s'.closeDeeper.Sound text := Sound.closeDeeper arrived
      dsimp only
      split
      · have ended : Keeps text s'.closeDeeper.cutEnd := keeps_cutEnd sound
        generalize s'.closeDeeper.cutEnd = ending at ended ⊢
        cases ending with
        | error fault => exact traces_fault ended
        | ok s'' => exact traces_all (Sound.queue ended)
      · have cut : Keeps text (s'.closeDeeper.cut.bind dropStale) :=
          (keeps_cut sound).bind fun _ sound => sound.dropStale
        generalize s'.closeDeeper.cut.bind dropStale = outcome at cut ⊢
        cases outcome with
        | error fault => exact traces_fault cut
        | ok s'' =>
          refine (ih (Sound.release cut _)).append fun token member => ?_
          exact Sound.queue cut token (List.mem_of_mem_take member)

/-- The tokens of a text come from it, and it explains the fault behind them. -/
theorem traces_tokens (text : List Char) : Traces text (Token.StandsIn text) (tokens text) := by
  unfold tokens
  split
  · have start : Lexer.Sound text { cursor := .start text } := ⟨Cursor.Inside.start text, nofun⟩
    have first : ∀ token ∈ [Token.streamStart], token.StandsIn text := List.forall_mem_singleton.2 nofun
    have ran := Lexer.traces_run start (text.length + 1)
    generalize Lexer.run (text.length + 1) { cursor := .start text } = result at ran ⊢
    exact ran.append first
  · exact traces_fault Fault.malformed_explainedBy

end LayeredConfig.Yaml
