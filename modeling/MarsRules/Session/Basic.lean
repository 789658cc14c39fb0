import MarsRules.Session.Corporation
import MarsRules.Session.Draw
import MarsRules.Session.Place
import MarsRules.Session.Use

/-! Opening and closing a session, and the course of the game. -/

namespace MarsRules

namespace Session

/-- A session before it is opened, with a recorder on every kind of event if asked for. -/
def new (game : GameId) (recording : Bool) : Session :=
  let bus : Bus Listener := {}
  { game
    bus := if recording then
        EventKind.all.foldl (fun b kind => (b.subscribe kind .recorder).2) bus
      else bus }

def watch (s : Session) : Session :=
  [EventKind.phaseChanged, .drawConfirmed, .tilePlaced].foldl
    (fun s kind => { s with bus := (s.bus.subscribe kind .forcedAction).2 }) s

def start (s : Store) (game : GameId) (recording : Bool) : Except Refusal Session :=
  match s.game? game with
  | some _ => .ok (new game recording).watch
  | none => .error (.gameNotFound game)

/-- Drops every subscription; closing again does nothing. -/
def close (s : Session) : Session :=
  if s.closed then s
  else { s with bus := s.bus.clear, subscribed := [], closed := true }

end Session

namespace Engine

def setTurn (p : Option PlayerId) : Engine Unit := updateGame (.turn p)

def setPhase (book : Rulebook) (phase : GamePhase) : Engine Unit := do
  let game ← readGame
  updateGame (.phase phase)
  announce book [.phaseChanged { game := ← gameId, before := game.phase, after := phase }]

/-- Starts the next generation, in which every action can be used again. -/
def advanceGeneration : Engine Nat := do
  let generation := (← readGame).generation + 1
  updateGame (.generation generation)
  renewActions (← onStore (Store.readRoster (← gameId)))
  return generation

def shutdown : Engine Unit := changeSession Session.close

end Engine

end MarsRules
