import MarsRules.Session.Publish

/-! Placing the tile that is offered. The board is written last, so that everything before it can be
put back. -/

namespace MarsRules

def TileKind.raises? : TileKind → Option GlobalParameter
  | .ocean => some .oceans
  | .greenery => some .oxygen
  | .city => none

/-- Oceans belong to nobody. -/
def TileKind.ownerOf (t : TileKind) (p : PlayerId) : Option PlayerId :=
  if t = .ocean then none else some p

namespace TileOffer

def pick (offer : Option TileOffer) (c : Coord) : Except Refusal TileOffer :=
  match offer with
  | none => .error (.invalidSelection "no tile placement is pending")
  | some offer =>
    if offer.hexes.contains c then .ok offer
    else .error (.invalidSelection
      s!"hex {c.text} is not available for a {offer.tile.word} tile")

end TileOffer

namespace Engine

/-- The writes of a placement; the next tile is offered on the board as it will be. -/
def writePlacement (rules : Rules) (player : Player) (offer : TileOffer) (c : Coord)
    (bonus : ResourceSet) : Noted (List ParameterChange) := do
  let p := player.id
  Noted.note (.tiles p player.queue player.tileOffer)
  update p (.tileOffer none)
  Steps.when (!bonus.isZero) (Noted.overwrite player (.resources (player.resources + bonus)))
  let changes ← Noted.applySteps rules p (offer.tile.raises?.toList.map (·, 1))
  let owner := offer.tile.ownerOf p
  let (_, board) ← ofExcept ((← readGame).board.occupy c offer.tile owner)
  let _ ← offerNext p board
  let _ ← onStore (Store.placeTile (← gameId) c offer.tile owner)
  return changes

/-- Everything of a placement but its announcements; gives the bonus as well. -/
def commitPlacement (rules : Rules) (p : PlayerId) (c : Coord) :
    Engine (ResourceSet × List Event) := do
  let player ← readPlayer p
  let offer ← TileOffer.pick player.tileOffer c
  let game ← readGame
  let bonus := ((game.board.hex? c).map (·.bonus)).getD {}
  let changes ← transact keepAll (writePlacement rules player offer c bonus)
  let game ← gameId
  let gained : List Event :=
    if bonus.isZero then [] else [.bonusGained { game, player := p, resources := bonus, coord := c }]
  let placed : Event :=
    .tilePlaced { game, player := p, tile := offer.tile, coord := c, source := some offer.source }
  return (bonus, changes.map (·.event game) ++ gained ++ [placed])

/-- Puts the offered tile on a hex and gives the bonus printed there. -/
def place (book : Rulebook) (p : PlayerId) (c : Coord) : Engine ResourceSet := do
  let (bonus, events) ← commitPlacement book.rules p c
  announce book events
  return bonus

end Engine

end MarsRules
