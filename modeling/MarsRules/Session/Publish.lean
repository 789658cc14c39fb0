import MarsRules.Session.Forced
import MarsRules.Session.Passive

/-! Announcing events. A listener that refuses is passed over; what a listener gives rise to is
announced before the next one is called. -/

namespace MarsRules

/-- What a listener does on an event, and the events it gives rise to. -/
def Listener.react (book : Rulebook) (e : Event) : Listener → Engine (List Event)
  | .recorder => do
    Engine.changeSession fun s => { s with heard := s.heard ++ [e] }
    return []
  | .forcedAction => do
    Engine.watchForced book.catalog e
    return []
  | .effect owner standing => standing.react book.rules owner e

namespace Engine

/-- Publishes an event and counts the listeners that dealt with it; `depth` is how many events may
be under way at once. -/
def publishWithin (book : Rulebook) : (depth : Nat) → Event → Engine Nat
  | 0, _ => Steps.stop .tooDeep
  | depth + 1, e => do
    let subs := (← session).bus.listeners e.kind
    let isLive id : Engine Bool := return (← session).bus.isRegistered id
    let call (s : Subscription Listener) : Engine Bool := do
      match ← outcome (s.handler.react book e) with
      | .ok events =>
        events.forM fun e => do let _ ← publishWithin book depth e
        return true
      | .error _ => return false
    Bus.deliver isLive call subs

def publish (book : Rulebook) (e : Event) : Engine Nat := publishWithin book book.depth e

def announce (book : Rulebook) (events : List Event) : Engine Unit :=
  events.forM fun e => do let _ ← publish book e

end Engine

end MarsRules
