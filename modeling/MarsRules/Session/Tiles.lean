import MarsRules.Engine

/-! The queue of tiles a player has to place. Only the first tile that fits the board is offered;
tiles before it that fit nowhere are dropped. -/

namespace MarsRules

/-- The first tile with a legal hex, its hexes and the tiles behind it. -/
def Board.firstPlaceable? (b : Board) (player : PlayerId) :
    List TileKind → Option (TileKind × List Coord × List TileKind)
  | [] => none
  | tile :: rest =>
    match b.legalHexes tile player with
    | [] => b.firstPlaceable? player rest
    | hexes => some (tile, hexes, rest)

namespace TileQueue

/-- The queue behind an offer; an empty one is none. -/
def remaining (q : TileQueue) (tiles : List TileKind) : Option TileQueue :=
  if tiles.isEmpty then none else some { q with tiles }

end TileQueue

namespace Engine

/-- Offers the next tile on a board, unless an offer is open. -/
def offerNext (p : PlayerId) (board : Board) : Engine (Option TileOffer) := do
  let player ← readPlayer p
  match player.tileOffer, player.queue with
  | none, some queue =>
    match board.firstPlaceable? p queue.tiles with
    | some (tile, hexes, rest) =>
      let offer : TileOffer := { tile, hexes, source := queue.source }
      update p (.queue (queue.remaining rest))
      update p (.tileOffer (some offer))
      return some offer
    | none =>
      update p (.queue none)
      return none
  | _, _ => return none

def advanceQueue (p : PlayerId) : Engine (Option TileOffer) := do
  let game ← readGame
  offerNext p game.board

end Engine

end MarsRules
