import MarsRules.Board
import MarsRules.Card.Json

/-! A player's record: pool and production, cards, what the cards have registered, and the choices
that wait for the player. -/

namespace MarsRules

/-- An action that a played card offers. -/
structure CardAction where
  card : CardId
  name : String
  index : Nat
  behavior : Behavior
  /-- Uses in this generation. -/
  plays : Nat := 0
deriving DecidableEq, Repr, Inhabited

namespace CardAction

def isAvailable (a : CardAction) : Bool := a.plays == 0

def isFor (a : CardAction) (card : CardId) (index : Nat) : Bool :=
  a.card == card && a.index == index

end CardAction

/-- A standing effect of a played card: it waits for an event, or it is a modifier. -/
structure CardEffect where
  card : CardId
  name : String
  index : Nat
  behavior : Behavior
deriving DecidableEq, Repr, Inhabited

def CardEffect.isPassive (e : CardEffect) : Bool := e.behavior.shape == .passive

/-- A resource that may be paid with, and what one of it is worth. -/
structure Substitute where
  resource : BaseResource
  rate : Int
deriving DecidableEq, Repr, Inhabited

inductive ForcedState where
  | pending | triggered | completed
deriving DecidableEq, Repr, Inhabited

namespace ForcedState

def word : ForcedState → String
  | pending => "pending"
  | triggered => "triggered"
  | completed => "completed"

def ofWord? (w : String) : Option ForcedState := termOf? word [pending, triggered, completed] w

end ForcedState

/-- What the corporation makes the player do first. -/
structure ForcedAction where
  corporation : CardId
  kind : ResourceKind
  description : String
  state : ForcedState := .pending
  /-- What the selection that answers it has to be stamped with. -/
  source : Option String := none
deriving DecidableEq, Repr, Inhabited

def ForcedAction.matches (f : ForcedAction) (source : String) : Bool :=
  f.state == .triggered && f.source == some source

/-- A tile to place on one of these hexes. -/
structure TileOffer where
  tile : TileKind
  hexes : List Coord
  source : String
deriving DecidableEq, Repr, Inhabited

/-- Drawn cards: some to keep for nothing, some more to buy. -/
structure DrawOffer where
  cards : List CardId
  free : Nat
  maxBought : Nat
  price : Int
  source : String
deriving DecidableEq, Repr, Inhabited

/-- Tiles to place later, in order. -/
structure TileQueue where
  source : String
  tiles : List TileKind
deriving DecidableEq, Repr, Inhabited

structure Player where
  id : PlayerId
  name : String
  corporation : Option CardId := none
  hand : List CardId := []
  played : List CardId := []
  resources : ResourceSet := {}
  production : ResourceSet := {}
  rating : Int := 20
  points : Int := 0
  actions : List CardAction := []
  effects : List CardEffect := []
  storage : Table Int := []
  forced : Option ForcedAction := none
  tileOffer : Option TileOffer := none
  drawOffer : Option DrawOffer := none
  queue : Option TileQueue := none
deriving DecidableEq, Repr, Inhabited

namespace Player

def named (id : PlayerId) : Player := { id, name := id }

/-- The tokens on a card, none if nothing is known of it. -/
def tokens (p : Player) (card : CardId) : Int := (p.storage.get? card).getD 0

def action? (p : Player) (card : CardId) (index : Nat) : Option CardAction :=
  p.actions.find? (·.isFor card index)

/-- The standing modifiers of one kind, in order. -/
def modifiers (p : Player) (kind : ResourceKind) : List LineItem :=
  (p.effects.flatMap (·.behavior.modifiers)).filter (·.kind == kind)

/-- What the player's effects let the player pay with. -/
def substitutes (p : Player) : List Substitute :=
  (p.modifiers .paymentSubstitute).flatMap fun item => item.resources.filterMap fun
    | .resource resource => some { resource, rate := item.amount }
    | _ => none

end Player

/-! As JSON. -/

namespace CardAction

def toJson (a : CardAction) : Json :=
  .record [
    .always "cardId" (.string a.card),
    .always "cardName" (.string a.name),
    .always "behaviorIndex" (.ofNat a.index),
    .always "behavior" a.behavior.toJson,
    .always "playCount" (.ofNat a.plays)]

def ofJson? (j : Json) : Option CardAction := do
  let f ← Json.Fields.of? ["cardId", "cardName", "behaviorIndex", "behavior", "playCount"] j
  return {
    card := ← f.required "cardId" Json.asText?
    name := ← f.required "cardName" Json.asText?
    index := ← f.required "behaviorIndex" (Json.asNat? maxNat64)
    behavior := ← f.required "behavior" Behavior.ofJson?
    plays := ← f.required "playCount" (Json.asNat? maxNat32) }

end CardAction

namespace CardEffect

def toJson (e : CardEffect) : Json :=
  .record [
    .always "cardId" (.string e.card),
    .always "cardName" (.string e.name),
    .always "behaviorIndex" (.ofNat e.index),
    .always "behavior" e.behavior.toJson]

def ofJson? (j : Json) : Option CardEffect := do
  let f ← Json.Fields.of? ["cardId", "cardName", "behaviorIndex", "behavior"] j
  return {
    card := ← f.required "cardId" Json.asText?
    name := ← f.required "cardName" Json.asText?
    index := ← f.required "behaviorIndex" (Json.asNat? maxNat64)
    behavior := ← f.required "behavior" Behavior.ofJson? }

end CardEffect

def Substitute.toJson (s : Substitute) : Json :=
  .record [
    .always "resource" (.string s.resource.word),
    .always "conversionRate" (.int s.rate)]

namespace ForcedAction

def toJson (a : ForcedAction) : Json :=
  .record [
    .always "corporationId" (.string a.corporation),
    .always "actionKind" a.kind.toJson,
    .always "description" (.string a.description),
    .always "state" (.string a.state.word),
    .always "source" (.ofOption .string a.source)]

def ofJson? (j : Json) : Option ForcedAction := do
  let f ← Json.Fields.of? ["corporationId", "actionKind", "description", "state", "source"] j
  return {
    corporation := ← f.required "corporationId" Json.asText?
    kind := ← f.required "actionKind" ResourceKind.ofJson?
    description := ← f.required "description" Json.asText?
    state := ← f.required "state" (Json.asTerm? ForcedState.ofWord?)
    source := ← f.nullable "source" Json.asText? }

end ForcedAction

namespace TileOffer

def toJson (o : TileOffer) : Json :=
  .record [
    .always "tile" o.tile.toJson,
    .always "availableHexes" (.ofList Coord.toJson o.hexes),
    .always "source" (.string o.source)]

def ofJson? (j : Json) : Option TileOffer := do
  let f ← Json.Fields.of? ["tile", "availableHexes", "source"] j
  return {
    tile := ← f.required "tile" TileKind.ofJson?
    hexes := ← f.required "availableHexes" (Json.asList? Coord.ofJson?)
    source := ← f.required "source" Json.asText? }

end TileOffer

namespace DrawOffer

def toJson (o : DrawOffer) : Json :=
  .record [
    .always "availableCards" (.ofList .string o.cards),
    .always "freeTakeCount" (.ofNat o.free),
    .always "maxBuyCount" (.ofNat o.maxBought),
    .always "cardBuyCost" (.int o.price),
    .always "source" (.string o.source)]

def ofJson? (j : Json) : Option DrawOffer := do
  let f ← Json.Fields.of?
    ["availableCards", "freeTakeCount", "maxBuyCount", "cardBuyCost", "source"] j
  return {
    cards := ← f.required "availableCards" (Json.asList? Json.asText?)
    free := ← f.required "freeTakeCount" (Json.asNat? maxNat32)
    maxBought := ← f.required "maxBuyCount" (Json.asNat? maxNat32)
    price := ← f.required "cardBuyCost" Json.asInt32?
    source := ← f.required "source" Json.asText? }

end DrawOffer

namespace TileQueue

def toJson (q : TileQueue) : Json :=
  .record [
    .always "source" (.string q.source),
    .always "items" (.ofList TileKind.toJson q.tiles)]

def ofJson? (j : Json) : Option TileQueue := do
  let f ← Json.Fields.of? ["source", "items"] j
  return {
    source := ← f.required "source" Json.asText?
    tiles := ← f.required "items" (Json.asList? TileKind.ofJson?) }

end TileQueue

namespace Player

def fieldNames : List String :=
  ["id", "name", "corporation", "cards", "playedCards", "resources", "production",
    "terraformRating", "victoryPoints", "actions", "effects", "resourceStorage",
    "forcedFirstAction", "pendingTileSelection", "pendingCardDrawSelection", "tileQueue"]

def toJson (p : Player) : Json :=
  .record [
    .always "id" (.string p.id),
    .always "name" (.string p.name),
    .always "corporation" (.ofOption .string p.corporation),
    .always "cards" (.ofList .string p.hand),
    .always "playedCards" (.ofList .string p.played),
    .always "resources" p.resources.toJson,
    .always "production" p.production.toJson,
    .always "terraformRating" (.int p.rating),
    .always "victoryPoints" (.int p.points),
    .always "actions" (.ofList CardAction.toJson p.actions),
    .always "effects" (.ofList CardEffect.toJson p.effects),
    .always "resourceStorage" (.object (p.storage.map fun (card, n) => (card, .int n))),
    .always "forcedFirstAction" (.ofOption ForcedAction.toJson p.forced),
    .always "pendingTileSelection" (.ofOption TileOffer.toJson p.tileOffer),
    .always "pendingCardDrawSelection" (.ofOption DrawOffer.toJson p.drawOffer),
    .always "tileQueue" (.ofOption TileQueue.toJson p.queue)]

def ofJson? (j : Json) : Option Player := do
  let f ← Json.Fields.of? fieldNames j
  return {
    id := ← f.required "id" Json.asText?
    name := ← f.required "name" Json.asText?
    corporation := ← f.nullable "corporation" Json.asText?
    hand := ← f.required "cards" (Json.asList? Json.asText?)
    played := ← f.required "playedCards" (Json.asList? Json.asText?)
    resources := ← f.required "resources" ResourceSet.ofJson?
    production := ← f.required "production" ResourceSet.ofJson?
    rating := ← f.required "terraformRating" Json.asInt32?
    points := ← f.required "victoryPoints" Json.asInt32?
    actions := ← f.required "actions" (Json.asList? CardAction.ofJson?)
    effects := ← f.required "effects" (Json.asList? CardEffect.ofJson?)
    storage := ← f.required "resourceStorage" (Json.asTable? Json.asInt32?)
    forced := ← f.nullable "forcedFirstAction" ForcedAction.ofJson?
    tileOffer := ← f.nullable "pendingTileSelection" TileOffer.ofJson?
    drawOffer := ← f.nullable "pendingCardDrawSelection" DrawOffer.ofJson?
    queue := ← f.nullable "tileQueue" TileQueue.ofJson? }

end Player

end MarsRules
