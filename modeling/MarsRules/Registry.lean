import MarsRules.Session.Basic

/-! Sessions on games that share one store: one open session a game. A session that was closed
keeps its handle, and its operations go on working on the store. -/

namespace MarsRules

abbrev Handle := Nat

structure Registry where
  store : Store := {}
  /-- Every session that was opened, under its handle. -/
  sessions : List Session := []
  /-- The handle of the open session of a game. -/
  opened : Table Handle := []

namespace Registry

def find? (r : Registry) (game : GameId) : Option Handle := r.opened.get? game

/-- The session of a game, opened if need be. -/
def find (r : Registry) (game : GameId) : Except Refusal (Handle × Registry) :=
  match r.find? game with
  | some handle => .ok (handle, r)
  | none => do
    let session ← Session.start r.store game false
    let handle := r.sessions.length
    return (handle,
      { r with sessions := r.sessions ++ [session], opened := r.opened.put game handle })

/-- Closes the session of a game and says whether there was one. -/
def close (r : Registry) (game : GameId) : Bool × Registry :=
  match r.find? game with
  | some handle =>
    (true, { r with
      sessions := r.sessions.modify handle Session.close
      opened := r.opened.erase game })
  | none => (false, r)

/-- Runs an operation of the session under a handle. -/
def run {α : Type} (r : Registry) (handle : Handle) (x : Engine α) :
    Option (Except Stop α × Registry) :=
  r.sessions[handle]?.map fun session =>
    let (result, w) := x { store := r.store, session }
    (result, { r with store := w.store, sessions := r.sessions.set handle w.session })

end Registry

end MarsRules
