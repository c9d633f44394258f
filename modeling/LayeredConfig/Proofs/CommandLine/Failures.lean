import LayeredConfig.Proofs.Override.Failures
import LayeredConfig.Proofs.Run.Regular

/-!
# How the command fails

`refusal_or_excess` follows an error from a text to the end of the command. Reading fails with an error of the parse
class or by what exceeds the reader, and texts of the latter kind do fail so; overrides fail with a configuration error
or by what exceeds the reader in one of them; and the command ends with status 1 then and says what a configuration
error is.
-/

namespace LayeredConfig

/-- Every configuration error has a wording of its own. -/
theorem Error.exists_message {error : Error} (kind : error.category.isConfiguration = true) :
    ∃ wording, error.message = some wording := by
  cases error <;> first | exact ⟨_, rfl⟩ | cases kind

namespace CommandLine

variable {surroundings : Surroundings} {store : File.Store} {stamp : String} {arguments : List String}
  {invocation : Invocation} {composed prepared : Tree} {error : Error}

/-- Where the overrides fail, no configuration is made. -/
theorem configuration_of_failure
    (composes : (Compose.files store (Run.filesOf store invocation.files (some defaultFile))).outcome = .ok composed)
    (prepares : (Run.ensureDefaults composed).outcome = .ok prepared)
    (fails : (prepared.override invocation.overrides).failure = some error) :
    (configuration surroundings store invocation).outcome = .error error := by
  have ends : (prepared.override invocation.overrides).logged.outcome = .error error := by
    unfold Application.logged Attempt.outcome
    rw [fails]
  rw [outcome_configuration, Run.outcome_build, composes]
  show ((Run.ensureDefaults composed).outcome >>= _) >>= _ = _
  rw [prepares]
  show ((prepared.override invocation.overrides).logged.outcome >>= _) >>= _ = _
  rw [ends]
  rfl

/-- The command ends with the error that keeps it from making a configuration, and with status 1. -/
theorem ending_of_configuration (parsed : parse arguments = .ok invocation) (help : invocation.help = false)
    (accepted : invocation.files.findSome? (refusal? store) = none)
    (fails : (configuration surroundings store invocation).outcome = .error error) :
    (execute surroundings store stamp arguments).ending = .failed error := by
  rw [execute_eq_perform parsed help accepted, perform, fails]

/-- Reading is refused, or the text exceeds the reader, which long numerals and large escapes do; overrides fail with
a configuration error, or one of them exceeds the reader; and the command reports the error that they fail with. -/
theorem refusal_or_excess (source : String) (text : List Char) (tree : Tree) (overrides : List String) :
    (∀ error, Yaml.read source text = .error error → error.category = .parse ∨ Yaml.Exceeds text error)
    ∧ (∀ word, Yaml.Scalar.IsOverlong word → Yaml.read source (word ++ ['\n']) = .error .numeralTooLong)
    ∧ (∀ digits, digits.length = 8 → digits.all Text.isHexDigit = true → 0x10FFFF < Text.hexValue digits →
      Yaml.read source (Yaml.escapeText 'U' digits)
        = .error (if 0x7FFFFFFF < Text.hexValue digits then .codePointBeyondWord else .codePointTooLarge))
    ∧ (∀ error, (tree.override overrides).failure = some error →
      error.category.isConfiguration = true ∨ ∃ expression ∈ overrides, Yaml.Exceeds expression.toList error)
    ∧ (∀ surroundings store stamp arguments invocation composed error,
      parse arguments = .ok invocation → invocation.help = false → invocation.overrides = overrides →
      invocation.files.findSome? (refusal? store) = none →
      (Compose.files store (Run.filesOf store invocation.files (some defaultFile))).outcome = .ok composed →
      (Run.ensureDefaults composed).outcome = .ok tree → (tree.override overrides).failure = some error →
      let ending := (execute surroundings store stamp arguments).ending
      ending = .failed error ∧ ending.status = 1 ∧
        (error.category.isConfiguration = true →
          ∃ wording, error.message = some wording ∧ ending.complaint? = some wording)) := by
  refine ⟨fun error fails => ?_, fun _ => Yaml.read_of_isOverlong, fun _ => Yaml.read_escapeText,
    fun _ => Tree.failure_of_override, ?_⟩
  · have explained := Yaml.explained_read source text
    rw [fails] at explained
    exact explained
  · rintro surroundings store stamp arguments invocation composed error parsed help rfl accepted composes prepares
      fails ending
    have ends : ending = .failed error :=
      ending_of_configuration parsed help accepted (configuration_of_failure composes prepares fails)
    refine ⟨ends, by rw [ends]; rfl, fun kind => ?_⟩
    obtain ⟨wording, message⟩ := Error.exists_message kind
    refine ⟨wording, message, ?_⟩
    rw [ends]
    show some (error.message.getD _) = _
    rw [message]
    rfl

/-- A number that is no code point breaks through everywhere, while a key that is missing is reported. -/
theorem refusal_or_excess_largeEscape :
    let surroundings : Surroundings := ⟨[], ⟨2024, 1, 1, 0, 0, 0, 0⟩, []⟩
    let ending := (execute surroundings ⟨[], ["work"]⟩ "" ["a=1"]).ending
    Yaml.read "<string>" "a: \"\\U00110000\"".toList = .error .codePointTooLarge
    ∧ Yaml.Exceeds "a: \"\\U00110000\"".toList .codePointTooLarge
    ∧ Yaml.read "<string>" (List.replicate 4301 '1' ++ ['\n']) = .error .numeralTooLong
    ∧ Yaml.read "<string>" (Yaml.escapeText 'U' "FFFFFFFF".toList) = .error .codePointBeyondWord
    ∧ ((Tree.mapping []).override ["+a=\"\\U00110000\""]).failure = some .codePointTooLarge
    ∧ (∃ expression ∈ ["+a=\"\\U00110000\""], Yaml.Exceeds expression.toList .codePointTooLarge)
    ∧ ending = .failed (.keyAbsent "a")
    ∧ ending.complaint? = some "Key 'a' does not exist. Use '+a=...' to add new parameters." := by
  intro surroundings ending
  let text := "a: \"\\U00110000\"".toList
  obtain ⟨reading, numerals, escapes, overriding, -⟩ :=
    refusal_or_excess "<string>" text (.mapping []) ["+a=\"\\U00110000\""]
  have reads : Yaml.read "<string>" text = .error .codePointTooLarge := by decide +kernel
  have overrides : ((Tree.mapping []).override ["+a=\"\\U00110000\""]).failure = some .codePointTooLarge := by
    decide +kernel
  refine ⟨reads, (reading _ reads).resolve_left nofun, numerals _ (by decide +kernel),
    escapes _ rfl (by decide) (by decide), overrides, (overriding _ overrides).resolve_left nofun, ?_⟩
  have parsed : parse ["a=1"] = .ok ⟨[], "WARNING", ["a=1"], false⟩ := by decide +kernel
  obtain ⟨-, -, -, -, reporting⟩ := refusal_or_excess "<string>" text
    (.mapping [("hydra", .mapping [("run", .mapping [("dir", .string Run.defaultDirectory)])])]) ["a=1"]
  obtain ⟨ends, -, reports⟩ := reporting surroundings ⟨[], ["work"]⟩ "" _ _ (.mapping []) (.keyAbsent "a") parsed
    rfl rfl rfl rfl rfl (by decide +kernel)
  obtain ⟨wording, same, complains⟩ := reports rfl
  refine ⟨ends, complains.trans (same.symm.trans ?_)⟩
  decide +kernel

end CommandLine

end LayeredConfig
