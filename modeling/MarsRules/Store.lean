import MarsRules.Game
import MarsRules.Player
import MarsRules.Steps

/-! The records of all games: the game, its players and its deck. Every look at a record and every
change of one is a call, which can be unavailable for a while; then it changes nothing. -/

namespace MarsRules

/-- A field of a player's record and what it is to hold. -/
inductive PlayerField where
  | resources (v : ResourceSet)
  | production (v : ResourceSet)
  | storage (v : Table Int)
  | actions (v : List CardAction)
  | effects (v : List CardEffect)
  | rating (v : Int)
  | points (v : Int)
  | corporation (v : Option CardId)
  | hand (v : List CardId)
  | played (v : List CardId)
  | queue (v : Option TileQueue)
  | tileOffer (v : Option TileOffer)
  | drawOffer (v : Option DrawOffer)
  | forced (v : Option ForcedAction)
deriving DecidableEq, Repr, Inhabited

/-- A field of a game's record and what it is to hold. -/
inductive GameField where
  | parameter (p : GlobalParameter) (v : Int)
  | phase (v : GamePhase)
  | turn (v : Option PlayerId)
  | generation (v : Nat)
deriving DecidableEq, Repr, Inhabited

/-- The calls that change a record. -/
inductive Write where
  | resources | production | storage | actions | effects | rating | points | corporation | hand
  | played | queue | tileOffer | drawOffer | forced
  /-- More tiles for a queue. -/
  | moreTiles
  | parameter (p : GlobalParameter)
  | phase | turn | generation | placeTile
  | drawCards
deriving DecidableEq, Repr, Inhabited

/-- The calls that only look something up. -/
inductive Read where
  | game | player | roster | card
deriving DecidableEq, Repr, Inhabited

inductive Call where
  | read (r : Read)
  | write (w : Write)
deriving DecidableEq, Repr, Inhabited

instance : Coe Read Call := ⟨.read⟩
instance : Coe Write Call := ⟨.write⟩

namespace PlayerField

def write : PlayerField → Write
  | resources _ => .resources
  | production _ => .production
  | storage _ => .storage
  | actions _ => .actions
  | effects _ => .effects
  | rating _ => .rating
  | points _ => .points
  | corporation _ => .corporation
  | hand _ => .hand
  | played _ => .played
  | queue _ => .queue
  | tileOffer _ => .tileOffer
  | drawOffer _ => .drawOffer
  | forced _ => .forced

def put (f : PlayerField) (p : Player) : Player :=
  match f with
  | resources v => { p with resources := v }
  | production v => { p with production := v }
  | storage v => { p with storage := v }
  | actions v => { p with actions := v }
  | effects v => { p with effects := v }
  | rating v => { p with rating := v }
  | points v => { p with points := v }
  | corporation v => { p with corporation := v }
  | hand v => { p with hand := v }
  | played v => { p with played := v }
  | queue v => { p with queue := v }
  | tileOffer v => { p with tileOffer := v }
  | drawOffer v => { p with drawOffer := v }
  | forced v => { p with forced := v }

/-- The same field, holding what the record holds. -/
def current (f : PlayerField) (p : Player) : PlayerField :=
  match f with
  | resources _ => resources p.resources
  | production _ => production p.production
  | storage _ => storage p.storage
  | actions _ => actions p.actions
  | effects _ => effects p.effects
  | rating _ => rating p.rating
  | points _ => points p.points
  | corporation _ => corporation p.corporation
  | hand _ => hand p.hand
  | played _ => played p.played
  | queue _ => queue p.queue
  | tileOffer _ => tileOffer p.tileOffer
  | drawOffer _ => drawOffer p.drawOffer
  | forced _ => forced p.forced

@[simp] theorem id_put (f : PlayerField) (p : Player) : (f.put p).id = p.id := by cases f <;> rfl

@[simp] theorem write_current (f : PlayerField) (p : Player) : (f.current p).write = f.write := by
  cases f <;> rfl

end PlayerField

namespace GameField

def write : GameField → Write
  | parameter p _ => .parameter p
  | phase _ => .phase
  | turn _ => .turn
  | generation _ => .generation

def put (f : GameField) (g : Game) : Game :=
  match f with
  | parameter p v => { g with parameters := g.parameters.set p v }
  | phase v => { g with phase := v }
  | turn v => { g with turn := v }
  | generation v => { g with generation := v }

end GameField

/-- Tiles behind those that wait already; the source of a live queue stays. -/
def TileQueue.extend (source : String) (tiles : List TileKind) : Option TileQueue → TileQueue
  | some q => { q with tiles := q.tiles ++ tiles }
  | none => { source, tiles }

/-- How many calls still get through, and how many then fail. -/
structure Outage where
  skip : Nat := 0
  times : Nat := 0
deriving DecidableEq, Repr, Inhabited

/-- Whether the next call gets through, and the outages that are left then. -/
def Outage.next : List Outage → Bool × List Outage
  | [] => (true, [])
  | { skip := skip + 1, times } :: rest => (true, { skip, times } :: rest)
  | { skip := 0, times := times + 1 } :: rest => (false, { times } :: rest)
  | { skip := 0, times := 0 } :: rest => next rest

structure Store where
  games : Table Game := []
  /-- The players of a game, in the order they were added. -/
  rosters : Table (List Player) := []
  /-- The project cards of a game, top first. -/
  decks : Table (List CardId) := []
  /-- The outages of each call that are still to come, one after the other. -/
  outages : Call → List Outage := fun _ => []

/-- Calls on the store, which may be refused. -/
abbrev StoreSteps := Steps Refusal Store

namespace Store

def game? (s : Store) (g : GameId) : Option Game := s.games.get? g

def roster (s : Store) (g : GameId) : List Player := (s.rosters.get? g).getD []

def player? (s : Store) (g : GameId) (p : PlayerId) : Option Player :=
  (s.roster g).find? (·.id == p)

def deck (s : Store) (g : GameId) : List CardId := (s.decks.get? g).getD []

def insertGame (s : Store) (g : Game) : Store := { s with games := s.games.put g.id g }

def removeGame (s : Store) (g : GameId) : Store := { s with games := s.games.erase g }

/-- Adds a player at the end; one with the same id goes. -/
def insertPlayer (s : Store) (g : GameId) (p : Player) : Store :=
  { s with rosters := s.rosters.put g ((s.roster g).filter (·.id ≠ p.id) ++ [p]) }

def removePlayers (s : Store) (g : GameId) : Store := { s with rosters := s.rosters.erase g }

def setDeck (s : Store) (g : GameId) (cards : List CardId) : Store :=
  { s with decks := s.decks.put g cards }

/-- Makes a call unavailable from now on, in place of what was ordered for it before. -/
def breakDown (s : Store) (c : Call) (os : List Outage) : Store :=
  { s with outages := fun d => if d = c then os else s.outages d }

/-- Whether the call gets through, and what is then left of its outages. -/
def call (s : Store) (c : Call) : Bool × Store :=
  match s.outages c with
  | [] => (true, s)
  | os => ((Outage.next os).1, s.breakDown c (Outage.next os).2)

def unavailable : Refusal := .storeFailure "store unavailable"

/-- One call: nothing else happens unless it gets through. -/
def perform (c : Call) : StoreSteps Unit := fun s =>
  match s.call c with
  | (true, s) => (.ok (), s)
  | (false, s) => (.error unavailable, s)

/-- The record of a game that is there. -/
def theGame (g : GameId) : StoreSteps Game := fun s =>
  match s.game? g with
  | some game => (.ok game, s)
  | none => (.error (.gameNotFound g), s)

def thePlayer (g : GameId) (p : PlayerId) : StoreSteps Player := fun s =>
  match s.player? g p with
  | some player => (.ok player, s)
  | none => (.error (.playerNotFound g p), s)

def readGame (g : GameId) : StoreSteps Game := do
  perform Read.game
  theGame g

def readPlayer (g : GameId) (p : PlayerId) : StoreSteps Player := do
  perform Read.player
  thePlayer g p

def readRoster (g : GameId) : StoreSteps (List Player) := do
  perform Read.roster
  return (← Steps.read).roster g

/-- Changes the record of a player who is there. -/
def changePlayer (g : GameId) (p : PlayerId) (f : Player → Player) : StoreSteps Unit := do
  let _ ← thePlayer g p
  Steps.change fun s =>
    { s with rosters := s.rosters.put g (changeFirst (·.id == p) f (s.roster g)) }

def changeGame (g : GameId) (f : Game → Game) : StoreSteps Unit := do
  let game ← theGame g
  Steps.change fun s => { s with games := s.games.put g (f game) }

def updatePlayer (g : GameId) (p : PlayerId) (f : PlayerField) : StoreSteps Unit := do
  perform f.write
  changePlayer g p f.put

def updateGame (g : GameId) (f : GameField) : StoreSteps Unit := do
  perform f.write
  changeGame g f.put

/-- Queues tiles for a player; no tiles are nothing to do. -/
def addTiles (g : GameId) (p : PlayerId) (source : String) (tiles : List TileKind) :
    StoreSteps Unit := do
  perform Write.moreTiles
  if tiles.isEmpty then return
  changePlayer g p fun player =>
    { player with queue := some (TileQueue.extend source tiles player.queue) }

def placeTile (g : GameId) (c : Coord) (tile : TileKind) (owner : Option PlayerId) :
    StoreSteps ResourceSet := do
  perform Write.placeTile
  let game ← theGame g
  let (bonus, board) ← Steps.ofExcept (game.board.occupy c tile owner)
  changeGame g fun game => { game with board }
  return bonus

/-- Takes up to `n` cards off the top of the deck. -/
def drawCards (g : GameId) (n : Nat) : StoreSteps (List CardId) := do
  perform Write.drawCards
  match (← Steps.read).decks.get? g with
  | some cards =>
    Steps.change fun s => s.setDeck g (cards.drop n)
    return cards.take n
  | none => Steps.stop (.gameNotFound g)

end Store

end MarsRules
