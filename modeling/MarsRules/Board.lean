import MarsRules.First
import MarsRules.Refusal
import MarsRules.Resource.Set

/-! The board of hexes: who may put which tile where. `legalHexes` lists the places for a tile in
board order, `occupy` puts one down. -/

namespace MarsRules

/-- Cube coordinates, which add up to zero on any board the program builds. -/
structure Coord where
  q : Int
  r : Int
  s : Int
deriving DecidableEq, Repr, Inhabited

namespace Coord

def axial (q r : Int) : Coord := ⟨q, r, -q - r⟩

def directions : List (Int × Int) := [(1, 0), (1, -1), (0, -1), (-1, 0), (-1, 1), (0, 1)]

def neighbors (c : Coord) : List Coord := directions.map fun (q, r) => axial (c.q + q) (c.r + r)

def isAdjacent (c d : Coord) : Bool := c.neighbors.contains d

def text (c : Coord) : String := s!"({c.q},{c.r},{c.s})"

end Coord

inductive Terrain where
  | land
  /-- Kept free for oceans. -/
  | oceanReserved
deriving DecidableEq, Repr, Inhabited

namespace Terrain

def word : Terrain → String
  | land => "land"
  | oceanReserved => "ocean-reserved"

def ofWord? (w : String) : Option Terrain := termOf? word [land, oceanReserved] w

end Terrain

structure Occupant where
  tile : TileKind
  owner : Option PlayerId
deriving DecidableEq, Repr, Inhabited

structure Hex where
  coord : Coord
  terrain : Terrain
  occupant : Option Occupant
  /-- Printed on the hex, for the player who covers it. -/
  bonus : ResourceSet := {}
deriving DecidableEq, Repr, Inhabited

namespace Hex

def isEmpty (h : Hex) : Bool := h.occupant.isNone

def isEmptyLand (h : Hex) : Bool := h.isEmpty && h.terrain == .land

def ownedBy (h : Hex) (player : PlayerId) : Bool := h.occupant.bind (·.owner) == some player

/-- Holds the tile, and belongs to the owner if one is asked for. -/
def holds (h : Hex) (tile : TileKind) (owner : Option PlayerId) : Bool :=
  match h.occupant with
  | some o => o.tile == tile && (owner.isNone || o.owner == owner)
  | none => false

/-- Whether a player with tiles on the `owned` hexes may put the tile here: a city on empty land, an
ocean on an empty hex reserved for it, a greenery on empty land beside the player's tiles if there
are any. -/
def takes (h : Hex) (tile : TileKind) (owned : List Coord) : Bool :=
  match tile with
  | .city => h.isEmptyLand
  | .ocean => h.isEmpty && h.terrain == .oceanReserved
  | .greenery => h.isEmptyLand && (owned.isEmpty || owned.any (·.isAdjacent h.coord))

end Hex

structure Board where
  hexes : List Hex := []
deriving DecidableEq, Repr, Inhabited

namespace Board

/-- The whole numbers from `lo` to `hi`, none if `hi` is less. -/
def between (lo hi : Int) : List Int := (List.range (hi - lo + 1).toNat).map fun i => lo + Int.ofNat i

/-- Empty land in the shape of a hexagon, column by column. -/
def hexagon (radius : Int) : Board where
  hexes := (between (-radius) radius).flatMap fun q =>
    (between (max (-radius) (-q - radius)) (min radius (-q + radius))).map fun r =>
      { coord := .axial q r, terrain := .land, occupant := none }

def hex? (b : Board) (c : Coord) : Option Hex := b.hexes.find? (·.coord == c)

/-- Changes the hex at a coordinate, if there is one. -/
def modify (b : Board) (c : Coord) (f : Hex → Hex) : Board :=
  ⟨changeFirst (·.coord == c) f b.hexes⟩

def reserveOceans (b : Board) (coords : List Coord) : Board :=
  coords.foldl (fun b c => b.modify c fun h => { h with terrain := .oceanReserved }) b

def addBonus (b : Board) (c : Coord) (r : BaseResource) (n : Int) : Board :=
  b.modify c fun h => { h with bonus := h.bonus.add r n }

def countTiles (b : Board) (tile : TileKind) (owner : Option PlayerId) : Nat :=
  b.hexes.countP (·.holds tile owner)

def ownedHexes (b : Board) (player : PlayerId) : List Coord :=
  (b.hexes.filter (·.ownedBy player)).map (·.coord)

/-- Whether the rules let the player put the tile on this hex. -/
def isLegal (b : Board) (tile : TileKind) (player : PlayerId) (h : Hex) : Bool :=
  h.takes tile (b.ownedHexes player)

def legalHexes (b : Board) (tile : TileKind) (player : PlayerId) : List Coord :=
  let owned := b.ownedHexes player
  (b.hexes.filter (·.takes tile owned)).map (·.coord)

/-- Puts a tile on a hex and gives the bonus printed there. -/
def occupy (b : Board) (c : Coord) (tile : TileKind) (owner : Option PlayerId) :
    Except Refusal (ResourceSet × Board) :=
  match b.hex? c with
  | none => .error (.invalidSelection s!"hex {c.text} is not on the board")
  | some { occupant := some o, .. } =>
    .error (.invalidSelection s!"hex {c.text} is already occupied by a {o.tile.word} tile")
  | some h =>
    if (h.terrain == .oceanReserved) == (tile == .ocean) then
      .ok (h.bonus, b.modify c fun h => { h with occupant := some { tile, owner } })
    else .error (.invalidSelection s!"{tile.word} tile cannot be placed on hex {c.text}")

end Board

/-! As JSON. -/

def TileKind.toJson (t : TileKind) : Json := .string t.word
def TileKind.ofJson? : Json → Option TileKind := Json.asTerm? ofWord?

namespace Coord

def toJson (c : Coord) : Json :=
  .record [.always "q" (.int c.q), .always "r" (.int c.r), .always "s" (.int c.s)]

def ofJson? (j : Json) : Option Coord := do
  let f ← Json.Fields.of? ["q", "r", "s"] j
  return ⟨← f.required "q" Json.asInt32?, ← f.required "r" Json.asInt32?,
    ← f.required "s" Json.asInt32?⟩

end Coord

namespace Occupant

def toJson (o : Occupant) : Json :=
  .record [.always "tile" o.tile.toJson, .always "owner" (.ofOption .string o.owner)]

def ofJson? (j : Json) : Option Occupant := do
  let f ← Json.Fields.of? ["tile", "owner"] j
  return {
    tile := ← f.required "tile" TileKind.ofJson?
    owner := ← f.nullable "owner" Json.asText? }

end Occupant

namespace Hex

def toJson (h : Hex) : Json :=
  .record [
    .always "coord" h.coord.toJson,
    .always "kind" (.string h.terrain.word),
    .always "occupant" (.ofOption Occupant.toJson h.occupant),
    .always "bonus" h.bonus.toJson]

def ofJson? (j : Json) : Option Hex := do
  let f ← Json.Fields.of? ["coord", "kind", "occupant", "bonus"] j
  return {
    coord := ← f.required "coord" Coord.ofJson?
    terrain := ← f.required "kind" (Json.asTerm? Terrain.ofWord?)
    occupant := ← f.nullable "occupant" Occupant.ofJson?
    bonus := ← f.defaulted "bonus" {} ResourceSet.ofJson? }

end Hex

namespace Board

def toJson (b : Board) : Json := .record [.always "hexes" (.ofList Hex.toJson b.hexes)]

def ofJson? (j : Json) : Option Board := do
  let f ← Json.Fields.of? ["hexes"] j
  return ⟨← f.required "hexes" (Json.asList? Hex.ofJson?)⟩

end Board

end MarsRules
