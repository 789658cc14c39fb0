import MarsRules.Bus.Basic
import MarsRules.Refusal

/-! Handlers that follow a script: they may use the bus themselves, publish further events and fail.
Publishing inside publishing is bounded by a depth. -/

namespace MarsRules

namespace Bus

inductive Action where
  | subscribe (name : String) (kind : EventKind) (actions : List Action) (limit : Option Nat)
  | publish (e : Event)
  | unsubscribe (name : String)
  | clear
  | count
  | fail (e : Refusal)
deriving Inhabited

/-- What a handler does when it is called, unless it was called `limit` times before. -/
structure Script where
  name : String
  actions : List Action
  limit : Option Nat
deriving Inhabited

inductive Report where
  | subscribed (id : SubscriptionId)
  | delivered (n : Nat)
  /-- Nothing is known of a name that was never used. -/
  | removed (found : Option Bool)
  | cleared (n : Nat)
  | counted (n : Nat)
  | refused (e : Refusal)
  /-- Events nested too deeply. -/
  | tooDeep
deriving DecidableEq, Repr, Inhabited

namespace Report

def succeeded : Report → Bool
  | refused _ | tooDeep => false
  | _ => true

end Report

/-- A line of the record that the handlers keep. -/
inductive Entry where
  | called (name : String) (e : Event)
  | did (name : String) (report : Report)
deriving DecidableEq, Repr, Inhabited

structure Stage where
  bus : Bus Script := {}
  names : Table SubscriptionId := []
  /-- How often each subscription was called. -/
  uses : SubscriptionId → Nat := fun _ => 0
  entries : List Entry := []

namespace Stage

def write (e : Entry) (s : Stage) : Stage := { s with entries := s.entries ++ [e] }

/-- Notes a call and says how many came before it. -/
def use (id : SubscriptionId) (s : Stage) : Nat × Stage :=
  (s.uses id, { s with uses := fun i => if i = id then s.uses id + 1 else s.uses i })

/-- The actions of a handler, up to the first that fails. -/
def runActions (act : Action → StateM Stage Report) (name : String) :
    List Action → StateM Stage Bool
  | [] => pure true
  | a :: rest => do
    let report ← act a
    if !report.succeeded then return false
    modify (write (.did name report))
    runActions act name rest

def call (act : Action → StateM Stage Report) (e : Event) (sub : Subscription Script) :
    StateM Stage Bool := do
  modify (write (.called sub.handler.name e))
  let before ← modifyGet (use sub.id)
  if sub.handler.limit.any (· ≤ before) then return true
  runActions act sub.handler.name sub.handler.actions

/-- Carries out one action; `depth` is how many events may still be under way at once. -/
def act : (depth : Nat) → Action → StateM Stage Report
  | _, .subscribe name kind actions limit => do
    let s ← get
    let (id, bus) := s.bus.subscribe kind { name, actions, limit }
    set { s with bus, names := s.names.put name id }
    return .subscribed id
  | 0, .publish _ => return .tooDeep
  | depth + 1, .publish e => do
    let subs := (← get).bus.listeners e.kind
    let isLive id := return (← get).bus.isRegistered id
    return .delivered (← deliver isLive (call (act depth) e) subs)
  | _, .unsubscribe name => do
    let s ← get
    match s.names.get? name with
    | some id =>
      let (found, bus) := s.bus.unsubscribe id
      set { s with bus }
      return .removed (some found)
    | none => return .removed none
  | _, .clear => do
    let s ← get
    set { s with bus := s.bus.clear }
    return .cleared s.bus.count
  | _, .count => return .counted (← get).bus.count
  | _, .fail e => return .refused e

end Stage

end Bus

end MarsRules
