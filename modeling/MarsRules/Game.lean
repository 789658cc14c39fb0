import MarsRules.Board

/-! The record that the players of a game share. -/

namespace MarsRules

inductive GamePhase where
  | setup | corporationSelection | startingCardSelection | action | production | complete
deriving DecidableEq, Repr, Inhabited

namespace GamePhase

def all : List GamePhase :=
  [setup, corporationSelection, startingCardSelection, action, production, complete]

def word : GamePhase → String
  | setup => "setup"
  | corporationSelection => "corporation_selection"
  | startingCardSelection => "starting_card_selection"
  | action => "action"
  | production => "production"
  | complete => "complete"

def ofWord? (w : String) : Option GamePhase := termOf? word all w

def toJson (p : GamePhase) : Json := .string p.word
def ofJson? : Json → Option GamePhase := Json.asTerm? ofWord?

end GamePhase

/-- What the global parameters stand at. -/
structure Parameters where
  temperature : Int := -30
  oxygen : Int := 0
  oceans : Int := 0
deriving DecidableEq, Repr, Inhabited

namespace Parameters

def get (v : Parameters) : GlobalParameter → Int
  | .temperature => v.temperature
  | .oxygen => v.oxygen
  | .oceans => v.oceans

def set (v : Parameters) (p : GlobalParameter) (n : Int) : Parameters :=
  match p with
  | .temperature => { v with temperature := n }
  | .oxygen => { v with oxygen := n }
  | .oceans => { v with oceans := n }

theorem get_set (v : Parameters) (p q : GlobalParameter) (n : Int) :
    (v.set p n).get q = if p = q then n else v.get q := by cases p <;> cases q <;> rfl

@[ext] theorem ext_get {v w : Parameters} (h : ∀ p, v.get p = w.get p) : v = w := by
  cases v; cases w
  have := h .temperature; have := h .oxygen; have := h .oceans
  simp_all [get]

def toJson (v : Parameters) : Json :=
  .record [
    .always "temperature" (.int v.temperature),
    .always "oxygen" (.int v.oxygen),
    .always "oceans" (.int v.oceans)]

def ofJson? (j : Json) : Option Parameters := do
  let f ← Json.Fields.of? ["temperature", "oxygen", "oceans"] j
  return {
    temperature := ← f.required "temperature" Json.asInt32?
    oxygen := ← f.required "oxygen" Json.asInt32?
    oceans := ← f.required "oceans" Json.asInt32? }

end Parameters

structure Game where
  id : GameId
  board : Board := {}
  phase : GamePhase := .setup
  generation : Nat := 1
  parameters : Parameters := {}
  turn : Option PlayerId := none
  players : List PlayerId := []
deriving DecidableEq, Repr, Inhabited

namespace Game

/-- Seats the players; the first has the turn if nobody has it. -/
def seat (g : Game) (players : List PlayerId) : Game :=
  { g with players, turn := g.turn <|> players.head? }

def toJson (g : Game) : Json :=
  .record [
    .always "id" (.string g.id),
    .always "phase" g.phase.toJson,
    .always "generation" (.ofNat g.generation),
    .always "globalParameters" g.parameters.toJson,
    .always "currentTurn" (.ofOption .string g.turn),
    .always "playerIds" (.ofList .string g.players),
    .always "board" g.board.toJson]

end Game

end MarsRules
