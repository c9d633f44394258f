import LayeredConfig.Error
import LayeredConfig.Journal.Record

/-!
# Logged results

`Logged α` is the outcome of an operation together with the records that it made, in order. A failure keeps
the records made before it. The outcome never depends on the records.
-/

namespace LayeredConfig

/-- An outcome and the records made on the way to it. -/
structure Logged (α : Type) where
  outcome : Except Error α
  log : List Record

namespace Logged

variable {α β : Type}

/-- An outcome reached without a record. -/
def of (outcome : Except Error α) : Logged α :=
  ⟨outcome, []⟩

/-- Goes on after a success; the records of both parts are kept in order. -/
def bind (first : Logged α) (next : α → Logged β) : Logged β :=
  match first.outcome with
  | .ok a => ⟨(next a).outcome, first.log ++ (next a).log⟩
  | .error e => ⟨.error e, first.log⟩

instance : Monad Logged where
  pure a := of (.ok a)
  bind := bind

instance : MonadExceptOf Error Logged where
  throw e := of (.error e)
  tryCatch action handler :=
    match action.outcome with
    | .ok _ => action
    | .error e => ⟨(handler e).outcome, action.log ++ (handler e).log⟩

instance : MonadLift (Except Error) Logged where
  monadLift := of

/-- Makes a record. -/
def record (record : Record) : Logged Unit :=
  ⟨.ok (), [record]⟩

theorem outcome_bind (first : Logged α) (next : α → Logged β) :
    (first >>= next).outcome = first.outcome.bind fun a => (next a).outcome := by
  obtain ⟨outcome, log⟩ := first
  cases outcome <;> rfl

end Logged

end LayeredConfig
