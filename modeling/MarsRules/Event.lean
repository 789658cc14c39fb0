import MarsRules.Card.Json
import MarsRules.Game

/-! What happens in a game that cards can react to. -/

namespace MarsRules

structure ParameterChanged where
  game : GameId
  before : Int
  after : Int
deriving DecidableEq, Repr, Inhabited

def ParameterChanged.isRaise (e : ParameterChanged) : Bool := e.before < e.after

structure TilePlaced where
  game : GameId
  player : PlayerId
  tile : TileKind
  coord : Coord
  /-- What asked for the tile. -/
  source : Option String
deriving DecidableEq, Repr, Inhabited

structure PhaseChanged where
  game : GameId
  before : GamePhase
  after : GamePhase
deriving DecidableEq, Repr, Inhabited

structure DrawConfirmed where
  game : GameId
  player : PlayerId
  source : String
  cards : List CardId
deriving DecidableEq, Repr, Inhabited

structure CardPlayed where
  game : GameId
  player : PlayerId
  card : CardId
  name : String
  type : CardType
  tags : List Tag
deriving DecidableEq, Repr, Inhabited

structure BonusGained where
  game : GameId
  player : PlayerId
  resources : ResourceSet
  coord : Coord
deriving DecidableEq, Repr, Inhabited

inductive Event where
  | parameterChanged (parameter : GlobalParameter) (e : ParameterChanged)
  | tilePlaced (e : TilePlaced)
  | phaseChanged (e : PhaseChanged)
  | drawConfirmed (e : DrawConfirmed)
  | cardPlayed (e : CardPlayed)
  | bonusGained (e : BonusGained)
deriving DecidableEq, Repr, Inhabited

/-- What a listener subscribes to. -/
inductive EventKind where
  | parameterChanged (parameter : GlobalParameter)
  | tilePlaced | phaseChanged | drawConfirmed | cardPlayed | bonusGained
deriving DecidableEq, Repr, Inhabited

namespace EventKind

def all : List EventKind :=
  GlobalParameter.all.map parameterChanged ++
    [tilePlaced, phaseChanged, drawConfirmed, cardPlayed, bonusGained]

def word : EventKind → String
  | parameterChanged .temperature => "TemperatureChanged"
  | parameterChanged .oxygen => "OxygenChanged"
  | parameterChanged .oceans => "OceansChanged"
  | tilePlaced => "TilePlaced"
  | phaseChanged => "GamePhaseChanged"
  | drawConfirmed => "CardDrawConfirmed"
  | cardPlayed => "CardPlayed"
  | bonusGained => "PlacementBonusGained"

def ofWord? (w : String) : Option EventKind := termOf? word all w

end EventKind

namespace Event

def kind : Event → EventKind
  | parameterChanged p _ => .parameterChanged p
  | tilePlaced _ => .tilePlaced
  | phaseChanged _ => .phaseChanged
  | drawConfirmed _ => .drawConfirmed
  | cardPlayed _ => .cardPlayed
  | bonusGained _ => .bonusGained

def game : Event → GameId
  | parameterChanged _ e => e.game
  | tilePlaced e => e.game
  | phaseChanged e => e.game
  | drawConfirmed e => e.game
  | cardPlayed e => e.game
  | bonusGained e => e.game

/-- Who brought the event about, where effects have to know it. -/
def originator? : Event → Option PlayerId
  | tilePlaced e => some e.player
  | cardPlayed e => some e.player
  | bonusGained e => some e.player
  | _ => none

end Event

/-! As JSON: an object whose only key is the kind. -/

namespace ParameterChanged

def toJson (e : ParameterChanged) : Json :=
  .record [
    .always "game_id" (.string e.game),
    .always "old_value" (.int e.before),
    .always "new_value" (.int e.after)]

def ofJson? (j : Json) : Option ParameterChanged := do
  let f ← Json.Fields.of? ["game_id", "old_value", "new_value"] j
  return {
    game := ← f.required "game_id" Json.asText?
    before := ← f.required "old_value" Json.asInt32?
    after := ← f.required "new_value" Json.asInt32? }

end ParameterChanged

namespace TilePlaced

def toJson (e : TilePlaced) : Json :=
  .record [
    .always "game_id" (.string e.game),
    .always "player_id" (.string e.player),
    .always "tile" e.tile.toJson,
    .always "coord" e.coord.toJson,
    .always "source" (.ofOption .string e.source)]

def ofJson? (j : Json) : Option TilePlaced := do
  let f ← Json.Fields.of? ["game_id", "player_id", "tile", "coord", "source"] j
  return {
    game := ← f.required "game_id" Json.asText?
    player := ← f.required "player_id" Json.asText?
    tile := ← f.required "tile" TileKind.ofJson?
    coord := ← f.required "coord" Coord.ofJson?
    source := ← f.nullable "source" Json.asText? }

end TilePlaced

namespace PhaseChanged

def toJson (e : PhaseChanged) : Json :=
  .record [
    .always "game_id" (.string e.game),
    .always "old_phase" e.before.toJson,
    .always "new_phase" e.after.toJson]

def ofJson? (j : Json) : Option PhaseChanged := do
  let f ← Json.Fields.of? ["game_id", "old_phase", "new_phase"] j
  return {
    game := ← f.required "game_id" Json.asText?
    before := ← f.required "old_phase" GamePhase.ofJson?
    after := ← f.required "new_phase" GamePhase.ofJson? }

end PhaseChanged

namespace DrawConfirmed

def toJson (e : DrawConfirmed) : Json :=
  .record [
    .always "game_id" (.string e.game),
    .always "player_id" (.string e.player),
    .always "source" (.string e.source),
    .always "cards" (.ofList .string e.cards)]

def ofJson? (j : Json) : Option DrawConfirmed := do
  let f ← Json.Fields.of? ["game_id", "player_id", "source", "cards"] j
  return {
    game := ← f.required "game_id" Json.asText?
    player := ← f.required "player_id" Json.asText?
    source := ← f.required "source" Json.asText?
    cards := ← f.required "cards" (Json.asList? Json.asText?) }

end DrawConfirmed

namespace CardPlayed

def toJson (e : CardPlayed) : Json :=
  .record [
    .always "game_id" (.string e.game),
    .always "player_id" (.string e.player),
    .always "card_id" (.string e.card),
    .always "card_name" (.string e.name),
    .always "card_type" e.type.toJson,
    .always "tags" (.ofList Tag.toJson e.tags)]

def ofJson? (j : Json) : Option CardPlayed := do
  let f ← Json.Fields.of?
    ["game_id", "player_id", "card_id", "card_name", "card_type", "tags"] j
  return {
    game := ← f.required "game_id" Json.asText?
    player := ← f.required "player_id" Json.asText?
    card := ← f.required "card_id" Json.asText?
    name := ← f.required "card_name" Json.asText?
    type := ← f.required "card_type" CardType.ofJson?
    tags := ← f.required "tags" (Json.asList? Tag.ofJson?) }

end CardPlayed

namespace BonusGained

def toJson (e : BonusGained) : Json :=
  .record [
    .always "game_id" (.string e.game),
    .always "player_id" (.string e.player),
    .always "resources" e.resources.toJson,
    .always "coord" e.coord.toJson]

def ofJson? (j : Json) : Option BonusGained := do
  let f ← Json.Fields.of? ["game_id", "player_id", "resources", "coord"] j
  return {
    game := ← f.required "game_id" Json.asText?
    player := ← f.required "player_id" Json.asText?
    resources := ← f.required "resources" ResourceSet.ofJson?
    coord := ← f.required "coord" Coord.ofJson? }

end BonusGained

namespace Event

def body : Event → Json
  | parameterChanged _ e => e.toJson
  | tilePlaced e => e.toJson
  | phaseChanged e => e.toJson
  | drawConfirmed e => e.toJson
  | cardPlayed e => e.toJson
  | bonusGained e => e.toJson

def toJson (e : Event) : Json := .object [(e.kind.word, e.body)]

def ofBody? (kind : EventKind) (j : Json) : Option Event :=
  match kind with
  | .parameterChanged p => (ParameterChanged.ofJson? j).map (parameterChanged p)
  | .tilePlaced => (TilePlaced.ofJson? j).map tilePlaced
  | .phaseChanged => (PhaseChanged.ofJson? j).map phaseChanged
  | .drawConfirmed => (DrawConfirmed.ofJson? j).map drawConfirmed
  | .cardPlayed => (CardPlayed.ofJson? j).map cardPlayed
  | .bonusGained => (BonusGained.ofJson? j).map bonusGained

def ofJson? : Json → Option Event
  | .object [(w, j)] => do ofBody? (← EventKind.ofWord? w) j
  | _ => none

end Event

end MarsRules
