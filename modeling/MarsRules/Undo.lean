import MarsRules.Store

/-! What was overwritten, and how it is put back. Putting back goes on past any failure and reports
the first. -/

namespace MarsRules

/-- One change that was made and what it replaced. -/
inductive Change where
  | player (id : PlayerId) (previous : PlayerField)
  /-- A queue and the offer in front of it, put back by two calls. -/
  | tiles (id : PlayerId) (queue : Option TileQueue) (offer : Option TileOffer)
  | subscribed (card : CardId)
  | parameter (p : GlobalParameter) (previous : Int)
deriving DecidableEq, Repr, Inhabited

/-- How the subscriptions of a card are dropped from whatever keeps them. -/
abbrev Dropping (δ : Type) := CardId → δ → Except Refusal Unit × δ

namespace Change

def undo {δ : Type} (game : GameId) (drop : Dropping δ) (c : Change) (s : Store) (d : δ) :
    Except Refusal Unit × Store × δ :=
  match c with
  | player id previous =>
    let (r, s) := Store.updatePlayer game id previous s
    (r, s, d)
  | tiles id queue offer =>
    let (r, s) : Except Refusal Unit × Store :=
      (do Store.updatePlayer game id (.queue queue)
          Store.updatePlayer game id (.tileOffer offer) : StoreSteps Unit) s
    (r, s, d)
  | subscribed card =>
    let (r, d) := drop card d
    (r, s, d)
  | parameter p previous =>
    let (r, s) := Store.updateGame game (.parameter p previous) s
    (r, s, d)

end Change

/-- The changes of one operation, newest first. -/
structure UndoLog where
  game : GameId
  changes : List Change := []
deriving DecidableEq, Repr, Inhabited

namespace UndoLog

def note (log : UndoLog) (c : Change) : UndoLog := { log with changes := c :: log.changes }

def isEmpty (log : UndoLog) : Bool := log.changes.isEmpty

def firstFailure : Except Refusal Unit → Except Refusal Unit → Except Refusal Unit
  | .error e, _ => .error e
  | .ok (), r => r

def undoAll {δ : Type} (game : GameId) (drop : Dropping δ) :
    List Change → Store → δ → Except Refusal Unit × Store × δ
  | [], s, d => (.ok (), s, d)
  | c :: rest, s, d =>
    let (r, s, d) := c.undo game drop s d
    let (r', s, d) := undoAll game drop rest s d
    (firstFailure r r', s, d)

/-- Puts everything back, newest first, and leaves the log empty. -/
def rewind {δ : Type} (log : UndoLog) (drop : Dropping δ) (s : Store) (d : δ) :
    Except Refusal Unit × UndoLog × Store × δ :=
  let (r, s, d) := undoAll log.game drop log.changes s d
  (r, { log with changes := [] }, s, d)

end UndoLog

end MarsRules
