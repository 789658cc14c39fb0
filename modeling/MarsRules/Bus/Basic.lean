import MarsRules.Event

/-! Subscriptions to events. An event goes to those who were subscribed to its kind when it was
published and still are when their turn comes. -/

namespace MarsRules

abbrev SubscriptionId := Nat

def SubscriptionId.text (id : SubscriptionId) : String := s!"sub-{id}"

structure Subscription (η : Type) where
  id : SubscriptionId
  kind : EventKind
  handler : η
deriving DecidableEq, Repr, Inhabited

structure Bus (η : Type) where
  /-- The last id that was handed out. -/
  issued : Nat := 0
  subscriptions : List (Subscription η) := []
deriving DecidableEq, Repr, Inhabited

namespace Bus

variable {η : Type}

def subscribe (b : Bus η) (kind : EventKind) (handler : η) : SubscriptionId × Bus η :=
  let id := b.issued + 1
  (id, { issued := id, subscriptions := b.subscriptions ++ [{ id, kind, handler }] })

def isRegistered (b : Bus η) (id : SubscriptionId) : Bool := b.subscriptions.any (·.id == id)

/-- Drops a subscription and says whether it was there. -/
def unsubscribe (b : Bus η) (id : SubscriptionId) : Bool × Bus η :=
  (b.isRegistered id, { b with subscriptions := b.subscriptions.filter (·.id != id) })

def unsubscribeAll (b : Bus η) (ids : List SubscriptionId) : Bus η :=
  ids.foldl (fun b id => (b.unsubscribe id).2) b

/-- Drops every subscription; ids are not handed out again. -/
def clear (b : Bus η) : Bus η := { b with subscriptions := [] }

def count (b : Bus η) : Nat := b.subscriptions.length

def listeners (b : Bus η) (kind : EventKind) : List (Subscription η) :=
  b.subscriptions.filter (·.kind == kind)

/-- Calls, in order, the subscriptions that are registered when their turn comes, and counts the
calls that succeed. -/
def deliver {m : Type → Type} [Monad m] (isLive : SubscriptionId → m Bool)
    (call : Subscription η → m Bool) : List (Subscription η) → m Nat
  | [] => pure 0
  | s :: rest => do
    let succeeded ← if ← isLive s.id then call s else pure false
    let n ← deliver isLive call rest
    return if succeeded then n + 1 else n

end Bus

end MarsRules
