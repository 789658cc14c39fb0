import MarsRules.Card.Basic

/-! Why an operation is refused, the message that tells it and its class. -/

namespace MarsRules

inductive Refusal where
  | requirementNotMet (reason : String)
  | insufficientResources (reason : String)
  | invalidPayment (reason : String)
  | invalidAction (reason : String)
  | gameNotFound (game : GameId)
  | playerNotFound (game : GameId) (player : PlayerId)
  | cardNotFound (card : CardId)
  | storageTargetNotFound (card : CardId)
  | unknownSubstitute (word : String)
  | unsupported (what : String)
  | invalidSelection (reason : String)
  | lockPoisoned
  | malformed (reason : String)
  | storeFailure (reason : String)
deriving DecidableEq, Repr, Inhabited

/-- What a caller can do about a refusal. -/
inductive RefusalClass where
  | validation | notFound | consistency | infrastructure
deriving DecidableEq, Repr, Inhabited

namespace Refusal

def message : Refusal → String
  | requirementNotMet reason => reason
  | insufficientResources reason => "Insufficient resources: " ++ reason
  | invalidPayment reason => "Invalid payment: " ++ reason
  | invalidAction reason => "Invalid action: " ++ reason
  | gameNotFound game => "Game not found: " ++ game
  | playerNotFound game player => s!"Player {player} not found in game {game}"
  | cardNotFound card => "Card not found: " ++ card
  | storageTargetNotFound card => s!"Target card {card} not found in played cards"
  | unknownSubstitute word => "Unknown payment substitute: " ++ word
  | unsupported what => "Unsupported: " ++ what
  | invalidSelection reason => "Invalid selection: " ++ reason
  | lockPoisoned => "Repository lock was poisoned"
  | malformed reason => "Serialization error: " ++ reason
  | storeFailure reason => "IO error: " ++ reason

def classOf : Refusal → RefusalClass
  | requirementNotMet _ | insufficientResources _ | invalidPayment _ | invalidAction _ =>
    .validation
  | gameNotFound _ | playerNotFound .. | cardNotFound _ => .notFound
  | storageTargetNotFound _ | unknownSubstitute _ | unsupported _ | invalidSelection _ =>
    .consistency
  | lockPoisoned | malformed _ | storeFailure _ => .infrastructure

/-- A counter holds less than is asked of it. -/
def shortfall (r : BaseResource) (held need : Int) : Refusal :=
  .insufficientResources s!"insufficient {r.word}: have {held}, need {need}"

/-- A production would fall below its floor. -/
def belowFloor (r : BaseResource) (level floor : Int) : Refusal :=
  .insufficientResources
    s!"insufficient {r.word} production: would drop to {level} (minimum {floor})"

def noAction (card : CardId) (index : Nat) : Refusal :=
  .invalidAction s!"card {card} has no action at index {index}"

end Refusal

end MarsRules
