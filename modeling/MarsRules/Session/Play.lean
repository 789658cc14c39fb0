import MarsRules.Payment
import MarsRules.Requirement
import MarsRules.Session.Publish

/-! Playing a card from the hand: everything is checked first, then written in one transaction, then
announced. -/

namespace MarsRules

structure PlayRequest where
  card : CardId
  payment : Payment := {}
  choice : Option Nat := none
  /-- The card that gets tokens that may go to any card. -/
  target : Option CardId := none
deriving DecidableEq, Repr, Inhabited

namespace PlayRequest

def toJson (r : PlayRequest) : Json :=
  .record [
    .always "cardId" (.string r.card),
    .always "payment" r.payment.toJson,
    .always "choiceIndex" (.ofOption .ofNat r.choice),
    .always "storageTarget" (.ofOption .string r.target)]

def ofJson? (j : Json) : Option PlayRequest := do
  let f ← Json.Fields.of? ["cardId", "payment", "choiceIndex", "storageTarget"] j
  return {
    card := ← f.required "cardId" Json.asText?
    payment := ← f.defaulted "payment" {} Payment.ofJson?
    choice := ← f.optional "choiceIndex" (Json.asNat? maxNat64)
    target := ← f.optional "storageTarget" Json.asText? }

end PlayRequest

def checkChoice (available : Nat) (choice : Option Nat) : Except Refusal Unit :=
  if available = 0 then .ok ()
  else match choice with
    | none => .error (.invalidAction s!"a choice is required (0..{available})")
    | some index =>
      if index < available then .ok ()
      else .error (.invalidAction
        s!"choice index {index} out of range, {available} choices available")

namespace Card

/-- The most choices that an immediate behavior offers. -/
def choicesAtPlay (c : Card) : Nat := ((c.shaped .immediate).map (·.choices.length)).foldl max 0

def checkCosts (c : Card) (choice : Option Nat) (pool : ResourceSet) : Except Refusal Unit :=
  match pool.shortfall? (c.immediateCosts choice) with
  | some (r, held, need) => .error (.insufficientResources
      s!"insufficient {r.word} after payment: have {held}, need {need}")
  | none => .ok ()

/-- All that has to hold for a player to play the card; gives the pool after the payment. -/
def checkPlay (c : Card) (book : Rulebook) (game : Game) (p : Player) (r : PlayRequest) :
    Except Refusal ResourceSet := do
  if !p.hand.contains c.id then throw (.invalidAction s!"card {c.id} is not in hand")
  c.checkRequirements book.catalog book.rules game p
  checkChoice c.choicesAtPlay r.choice
  r.payment.check book.rules (c.price p) p.resources
  let paid ← r.payment.takeFrom p.resources
  c.checkCosts r.choice paid
  checkProductionFloors book.rules p.production
    ((c.shaped .immediate).flatMap (·.outputsWith r.choice))
  let _ ← Plan.ofCard c { p with played := p.played ++ [c.id] } r.choice r.target
  return paid

def event (c : Card) (game : GameId) (p : PlayerId) : Event :=
  .cardPlayed { game, player := p, card := c.id, name := c.name, type := c.type, tags := c.tags }

end Card

namespace Engine

/-- Plans and writes what a card does for a player; gives the events to announce. -/
def commitCard (rules : Rules) (p : PlayerId) (card : Card) (choice : Option Nat)
    (target : Option CardId) : Engine (List Event) := do
  let player ← readPlayer p
  let plan ← Plan.ofCard card player choice target
  if plan.isEmpty then return []
  plan.commit rules true

def applyCard (book : Rulebook) (p : PlayerId) (card : Card) (choice : Option Nat)
    (target : Option CardId) : Engine Unit := do
  announce book (← commitCard book.rules p card choice target)

def startTokens (player : Player) (card : Card) : Noted Unit :=
  match card.storage with
  | some tokens =>
    Noted.overwrite player (.storage (player.storage.put card.id tokens.starting))
  | none => pure ()

/-- The writes of a play: the pool, the hand, the played cards, the tokens, and the effects. -/
def writePlay (rules : Rules) (player : Player) (card : Card) (r : PlayRequest)
    (paid : ResourceSet) : Noted (List Event) := do
  let pool := paid + card.immediateInputs r.choice
  Steps.when (pool ≠ player.resources) (Noted.overwrite player (.resources pool))
  Noted.overwrite player (.hand (player.hand.filter (· ≠ card.id)))
  Noted.overwrite player (.played (player.played ++ [card.id]))
  startTokens player card
  commitCard rules player.id card r.choice r.target

/-- Checks a play against the records as they are; gives what the play goes by, and the pool after
the payment. -/
def checkPlay (book : Rulebook) (p : PlayerId) (r : PlayRequest) :
    Engine (Player × Card × ResourceSet) := do
  let game ← readGame
  let player ← readPlayer p
  let card ← findCard book.catalog r.card
  return (player, card, ← card.checkPlay book game player r)

def canPlay (book : Rulebook) (p : PlayerId) (r : PlayRequest) : Engine Unit := do
  let _ ← checkPlay book p r

/-- Everything of a play but its announcements. -/
def commitPlay (book : Rulebook) (p : PlayerId) (r : PlayRequest) : Engine (List Event) := do
  let (player, card, paid) ← checkPlay book p r
  let events ← transact keepAll (writePlay book.rules player card r paid)
  return events ++ [card.event (← gameId) p]

def play (book : Rulebook) (p : PlayerId) (r : PlayRequest) : Engine Unit := do
  announce book (← commitPlay book p r)

end Engine

end MarsRules
