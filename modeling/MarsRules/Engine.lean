import MarsRules.Bus.Basic
import MarsRules.Catalog
import MarsRules.Rules
import MarsRules.Undo

/-! Operations of a session. They work on the shared store and on the session's own subscriptions,
and keep what they did when they stop early. A transaction notes what it overwrites and puts it back
when it is refused. -/

namespace MarsRules

/-- What a session listens with. -/
inductive Listener where
  /-- Keeps the events it hears. -/
  | recorder
  /-- Triggers and completes forced actions. -/
  | forcedAction
  | effect (owner : PlayerId) (e : CardEffect)
deriving DecidableEq, Repr, Inhabited

/-- What lives as long as a game is being played: its subscriptions. -/
structure Session where
  game : GameId
  bus : Bus Listener := {}
  /-- The subscriptions made for each card. -/
  subscribed : Table (List SubscriptionId) := []
  closed : Bool := false
  /-- What the recorder heard, oldest first. -/
  heard : List Event := []
deriving DecidableEq, Repr, Inhabited

structure World where
  store : Store
  session : Session

/-- What a session plays by; it does not change. -/
structure Rulebook where
  catalog : Catalog
  rules : Rules
  /-- How many events may be under way at once. -/
  depth : Nat

/-- Why an operation stopped. -/
inductive Stop where
  /-- Refused; `restored` says whether everything that a transaction noted was put back. -/
  | refused (e : Refusal) (restored : Bool)
  /-- A parameter had to be cut to a range whose ends are the wrong way round. -/
  | brokenRange
  /-- Events nested too deeply. -/
  | tooDeep
deriving DecidableEq, Repr, Inhabited

abbrev Engine := Steps Stop World

namespace Engine

variable {α : Type}

def refuse (e : Refusal) : Engine α := Steps.stop (.refused e true)

def ofExcept : Except Refusal α → Engine α
  | .ok a => pure a
  | .error e => refuse e

def onStore (x : StoreSteps α) : Engine α := fun w =>
  match x w.store with
  | (.ok a, store) => (.ok a, { w with store })
  | (.error e, store) => (.error (.refused e true), { w with store })

instance : MonadLift StoreSteps Engine := ⟨onStore⟩
instance : MonadLift (Except Refusal) Engine := ⟨ofExcept⟩

def session : Engine Session := return (← Steps.read).session

def gameId : Engine GameId := return (← session).game

def changeSession (f : Session → Session) : Engine Unit :=
  Steps.change fun w => { w with session := f w.session }

def readGame : Engine Game := do Store.readGame (← gameId)

def readPlayer (p : PlayerId) : Engine Player := do Store.readPlayer (← gameId) p

/-- Looks a card up in the catalog. -/
def findCard (cat : Catalog) (id : CardId) : Engine Card := do
  onStore (Store.perform Read.card)
  cat.find id

def update (p : PlayerId) (f : PlayerField) : Engine Unit := do
  Store.updatePlayer (← gameId) p f

def updateGame (f : GameField) : Engine Unit := do Store.updateGame (← gameId) f

/-- The refusal as a value; any other stop stays one. -/
def outcome (x : Engine α) : Engine (Except Refusal α) := fun w =>
  match x w with
  | (.ok a, w) => (.ok (.ok a), w)
  | (.error (.refused e _), w) => (.ok (.error e), w)
  | (.error stop, w) => (.error stop, w)

/-- Runs the steps; if they are refused, does something to put back what came before them. -/
def orElse (x : Engine α) (putBack : Engine Unit) : Engine α := fun w =>
  match x w with
  | (.error (.refused e restored), w) => match putBack w with
    | (.ok (), w) => (.error (.refused e restored), w)
    | (.error (.refused e _), w) => (.error (.refused e false), w)
    | (.error stop, w) => (.error stop, w)
  | other => other

end Engine

/-- Steps of a transaction, which note what they overwrite, newest first. -/
abbrev Noted := Steps Stop (World × List Change)

namespace Noted

variable {α : Type}

def ofEngine (x : Engine α) : Noted α := fun (w, noted) =>
  let (r, w) := x w
  (r, w, noted)

instance : MonadLift Engine Noted := ⟨ofEngine⟩

def note (c : Change) : Noted Unit := Steps.change fun (w, noted) => (w, c :: noted)

/-- Notes a field of a record as it was read, and then changes it. -/
def overwrite (player : Player) (field : PlayerField) : Noted Unit := do
  note (.player player.id (field.current player))
  Engine.update player.id field

end Noted

/-- Runs the steps; if they are refused, what they noted is put back. -/
def transact {α : Type} (drop : Dropping Session) (steps : Noted α) : Engine α := fun w =>
  match steps (w, []) with
  | (.ok a, w, _) => (.ok a, w)
  | (.error (.refused e restored), w, noted) =>
    let log : UndoLog := { game := w.session.game, changes := noted }
    let (r, _, store, session) := log.rewind drop w.store w.session
    (.error (.refused e (restored && r.isOk)), { store, session })
  | (.error stop, w, _) => (.error stop, w)

/-- A transaction without subscriptions has none to drop. -/
def keepAll : Dropping Session := fun _ s => (.ok (), s)

end MarsRules
