import MarsRules.Catalog
import MarsRules.Game
import MarsRules.Player
import MarsRules.Rules

/-! Whether a player meets what a card requires. Requirements are checked in order and the first
that fails is the one reported; what the rules do not model is met. -/

namespace MarsRules

namespace Player

/-- The steps by which the player's effects widen requirements on global parameters. -/
def lenience (p : Player) : Int :=
  wrapInt32 (total ((p.modifiers .parameterLenience).map (·.amount)))

/-- The played cards, and the corporation if it is not among them. -/
def tableau (p : Player) : List CardId :=
  p.played ++ (p.corporation.filter fun c => !p.played.contains c).toList

/-- How often a tag is printed on the player's cards; a card that is not in the catalog has none. -/
def countTags (p : Player) (cat : Catalog) (tag : Tag) : Nat :=
  (p.tableau.flatMap fun id => ((cat.find? id).map (·.tags)).getD []).count tag

end Player

namespace Requirement

def checkBounds (label : String) (min max : Option Int) (current : Int) : Except Refusal Unit := do
  if let some lo := min then
    if current < lo then
      throw (.requirementNotMet
        s!"{label} requirement not met: need at least {lo}, current is {current} (short by {wrapInt32 (lo - current)})")
  if let some hi := max then
    if hi < current then
      throw (.requirementNotMet
        s!"{label} requirement not met: need at most {hi}, current is {current} (over by {wrapInt32 (current - hi)})")

def checkTags (r : Requirement) (tag : Tag) (count : Int) : Except Refusal Unit := do
  if let some lo := r.min then
    if count < lo then
      throw (.requirementNotMet s!"insufficient {tag.word} tags: need at least {lo}, have {count}")
  if let some hi := r.max then
    if hi < count then
      throw (.requirementNotMet s!"too many {tag.word} tags: need at most {hi}, have {count}")

/-- The productions a requirement is about: the one it names, or all. -/
def productions (r : Requirement) : Except Refusal (List BaseResource) :=
  match r.resource with
  | some (.resource b) | some (.production b) => .ok [b]
  | some other => .error (.unsupported s!"production requirement on {other.word}")
  | none => .ok BaseResource.all

def checkParameter (r : Requirement) (rules : Rules) (p : GlobalParameter) (game : Game)
    (player : Player) : Except Refusal Unit :=
  let slack := wrapInt32 (player.lenience * (rules.range p).step)
  checkBounds p.word (r.min.map fun lo => wrapInt32 (lo - slack))
    (r.max.map fun hi => wrapInt32 (hi + slack)) (game.parameters.get p)

def check (r : Requirement) (cat : Catalog) (rules : Rules) (game : Game) (player : Player) :
    Except Refusal Unit :=
  match r.kind with
  | .temperature => r.checkParameter rules .temperature game player
  | .oxygen => r.checkParameter rules .oxygen game player
  | .oceans => r.checkParameter rules .oceans game player
  | .terraformRating => checkBounds "terraform rating" r.min r.max player.rating
  | .tags => match r.tag with
    | some tag => r.checkTags tag (player.countTags cat tag)
    | none => .ok ()
  | .production => do
    for b in ← r.productions do
      checkBounds s!"{b.word} production" r.min r.max (player.production.get b)
  | .resource => match r.resource with
    | some (.resource b) => checkBounds b.word r.min r.max (player.resources.get b)
    | _ => .ok ()
  | .cities => checkBounds "cities" r.min r.max (game.board.countTiles .city (some player.id))
  | .greeneries =>
    checkBounds "greeneries" r.min r.max (game.board.countTiles .greenery (some player.id))
  | .venus | .unknown _ => .ok ()

end Requirement

def Card.checkRequirements (c : Card) (cat : Catalog) (rules : Rules) (game : Game)
    (player : Player) : Except Refusal Unit :=
  c.requirements.forM fun r => r.check cat rules game player

/-- Whether outputs, taken in order, keep every production at or above its floor. Reductions that
others bear do not count. -/
def checkProductionFloors (rules : Rules) (production : ResourceSet) :
    List LineItem → Except Refusal Unit
  | [] => .ok ()
  | item :: rest =>
    match item.kind, item.chargesOther with
    | .production r, false =>
      let production := production.add r item.amount
      let level := production.get r
      let floor := rules.productionFloor r
      if item.amount < 0 ∧ level < floor then .error (.belowFloor r level floor)
      else checkProductionFloors rules production rest
    | _, _ => checkProductionFloors rules production rest

end MarsRules
