import MarsRules.Session.Commit

/-! What a passive effect does when an event meets its condition. -/

namespace MarsRules

/-- An output for the player alone applies only if the player, or nobody, brought the event about. -/
def LineItem.concerns (item : LineItem) (owner : PlayerId) (e : Event) : Bool :=
  item.target != some .selfPlayer || e.originator?.all (· == owner)

def ResourceKind.isPassive : ResourceKind → Bool
  | .production _ | .resource _ | .terraformRating | .cardStorage _ | .globalParameter _ => true
  | _ => false

namespace CardEffect

def applicable (effect : CardEffect) (owner : PlayerId) (e : Event) : List LineItem :=
  effect.behavior.outputs.filter fun item => item.concerns owner e && item.kind.isPassive

/-- What the effect does for its owner; tokens for any card find none. -/
def plan (effect : CardEffect) (owner : Player) (e : Event) : Except Refusal Plan :=
  let blank : Plan := { player := owner.id, source := effect.card }
  blank.addOutputs (effect.applicable owner.id e)
    { card := effect.card, played := owner.played, target := none }

def firesOn (effect : CardEffect) (game : GameId) (e : Event) : Bool :=
  e.game == game && effect.behavior.condition?.any (·.isMetBy e)

/-- Fires the effect if the event meets its condition, and gives the events to announce. -/
def react (effect : CardEffect) (rules : Rules) (owner : PlayerId) (e : Event) :
    Engine (List Event) := do
  if !effect.firesOn (← Engine.gameId) e then return []
  let player ← Engine.readPlayer owner
  let plan ← Engine.ofExcept (effect.plan player e)
  if plan.isEmpty then return []
  plan.commit rules false

end CardEffect

end MarsRules
