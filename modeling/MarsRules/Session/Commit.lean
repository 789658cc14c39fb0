import MarsRules.Parameter
import MarsRules.Plan
import MarsRules.Session.Subscriptions
import MarsRules.Session.Tiles

/-! Writing a plan: everything in one transaction, and the drawing of cards, which cannot be undone,
last. The events it gives rise to are announced afterwards. -/

namespace MarsRules

namespace Noted

/-- Moves a parameter from where it stood, unless it stays there. -/
def moveParameter (rules : Rules) (now : Parameters) (p : GlobalParameter) (n : Int) :
    Noted (Option ParameterChange) :=
  if n = 0 then pure none
  else match ParameterChange.of? rules p (now.get p) n with
    | none => Steps.stop .brokenRange
    | some c =>
      if c.isChange then do
        note (.parameter p c.before)
        Engine.updateGame (.parameter p c.after)
        return some c
      else pure none

def moveParameters (rules : Rules) (now : Parameters) :
    List (GlobalParameter × Int) → Noted (List ParameterChange)
  | [] => pure []
  | (p, n) :: rest => do
    let moved ← moveParameter rules now p n
    let others ← moveParameters rules now rest
    return moved.toList ++ others

/-- Moves parameters and gives the player the rating that the steps are worth. -/
def applySteps (rules : Rules) (p : PlayerId) (steps : List (GlobalParameter × Int)) :
    Noted (List ParameterChange) := do
  if steps.all (·.2 == 0) then return []
  let game ← Engine.readGame
  let changes ← moveParameters rules game.parameters steps
  let gained := wrapInt32 (total (changes.map (·.stepsGained rules)))
  Steps.when (rules.ratingPerStep && 0 < gained) do
    let player ← Engine.readPlayer p
    overwrite player (.rating (addInt32 player.rating gained))
  return changes

/-- Subscribes effects; a card is noted before its first. -/
def subscribe (owner : PlayerId) : (noted : List CardId) → List CardEffect → Noted Unit
  | _, [] => pure ()
  | noted, e :: rest => do
    Steps.when (!noted.contains e.card) (note (.subscribed e.card))
    Engine.changeSession fun s => (s.subscribe owner e).2
    subscribe owner (e.card :: noted) rest

end Noted

namespace Plan

open Noted (overwrite note)

/-- The actions once one of them is used up. -/
def useUp (actions : List CardAction) : Option (CardId × Nat) → Except Refusal (List CardAction)
  | none => .ok actions
  | some (card, index) =>
    if actions.any (·.isFor card index) then
      .ok (changeFirst (·.isFor card index) (fun a => { a with plays := a.plays + 1 }) actions)
    else .error (.noAction card index)

/-- The offer that holds newly drawn cards, behind those that wait already. -/
def mergeDraw (source : CardId) (cards : List CardId) (n : Nat) : Option DrawOffer → DrawOffer
  | some o => { o with cards := o.cards ++ cards, free := saturateNat32 (o.free + n) }
  | none => { cards, free := n, maxBought := 0, price := 0, source }

def addTokens (storage : Table Int) (tokens : List (CardId × Int)) : Table Int :=
  tokens.foldl (fun t (card, n) => t.put card (addInt32 ((t.get? card).getD 0) n)) storage

def writeProduction (plan : Plan) (player : Player) : Noted Unit :=
  Steps.when (!plan.production.isZero)
    (overwrite player (.production (player.production + plan.production)))

def writeActions (plan : Plan) (player : Player) : Noted Unit :=
  Steps.when (!plan.actions.isEmpty || plan.used.isSome) do
    let actions ← Engine.ofExcept (useUp (player.actions ++ plan.actions) plan.used)
    overwrite player (.actions actions)

/-- The effects; those that wait for an event are subscribed if `listening`. -/
def writeEffects (plan : Plan) (player : Player) (listening : Bool) : Noted Unit :=
  Steps.when (!plan.effects.isEmpty) do
    overwrite player (.effects (player.effects ++ plan.effects))
    Steps.when listening (Noted.subscribe plan.player [] (plan.effects.filter (·.isPassive)))

def writePoints (plan : Plan) (player : Player) : Noted Unit :=
  Steps.when (plan.points != 0) (overwrite player (.points (addInt32 player.points plan.points)))

def writeResources (plan : Plan) (player : Player) : Noted Unit :=
  Steps.when (!plan.resources.isZero)
    (overwrite player (.resources (player.resources + plan.resources)))

def writeRating (plan : Plan) (player : Player) : Noted Unit :=
  Steps.when (plan.rating != 0)
    (overwrite player (.rating (addInt32 player.rating plan.rating)))

def writeStorage (plan : Plan) (player : Player) : Noted Unit :=
  Steps.when (!plan.storage.isEmpty)
    (overwrite player (.storage (addTokens player.storage plan.storage)))

def writeTiles (plan : Plan) (player : Player) : Noted Unit :=
  Steps.when (!plan.tiles.isEmpty) do
    note (.tiles player.id player.queue player.tileOffer)
    Engine.onStore (Store.addTiles (← Engine.gameId) plan.player plan.source plan.tiles)
    let _ ← Engine.advanceQueue plan.player

def writeDraw (plan : Plan) (player : Player) : Noted Unit :=
  Steps.when (plan.draw != 0) do
    let cards ← Engine.onStore (Store.drawCards (← Engine.gameId) plan.draw)
    overwrite player (.drawOffer (mergeDraw plan.source cards plan.draw player.drawOffer))

/-- What the plan does to the player's record. -/
def writeRecord (plan : Plan) (player : Player) (listening : Bool) : Noted Unit := do
  plan.writeProduction player
  plan.writeActions player
  plan.writeEffects player listening
  plan.writePoints player
  plan.writeResources player
  plan.writeRating player
  plan.writeStorage player
  plan.writeTiles player

/-- The steps of the transaction. They go by the player's record as it is at the start. -/
def write (plan : Plan) (rules : Rules) (listening : Bool) : Noted (List ParameterChange) := do
  let player ← Engine.readPlayer plan.player
  plan.writeRecord player listening
  let changes ← Noted.applySteps rules plan.player plan.parameters
  plan.writeDraw player
  return changes

/-- Writes all of the plan or nothing, and gives the events to announce. -/
def commit (plan : Plan) (rules : Rules) (listening : Bool) : Engine (List Event) := do
  let drop := if listening then Session.dropCard else keepAll
  let changes ← transact drop (plan.write rules listening)
  let game ← Engine.gameId
  return changes.map (·.event game)

end Plan

end MarsRules
