import MarsRules.Engine

/-! Which events a passive effect listens to, and the subscriptions a session keeps for the cards
that made them. -/

namespace MarsRules

/-- The kind of event that can meet a condition; none can meet one the rules do not know. -/
def ConditionKind.eventKind? : ConditionKind → Option EventKind
  | .temperatureRaise => some (.parameterChanged .temperature)
  | .oxygenRaise => some (.parameterChanged .oxygen)
  | .oceanPlaced => some (.parameterChanged .oceans)
  | .cityPlaced | .greeneryPlaced | .tilePlaced => some .tilePlaced
  | .cardPlayed | .tagPlayed => some .cardPlayed
  | .placementBonusGained => some .bonusGained
  | .unknown _ => none

def Condition.isMetBy (c : Condition) : Event → Bool
  | .parameterChanged p e => c.kind.eventKind? == some (.parameterChanged p) && e.isRaise
  | .tilePlaced e => match c.kind with
    | .cityPlaced => e.tile == .city
    | .greeneryPlaced => e.tile == .greenery
    | .tilePlaced => true
    | _ => false
  | .cardPlayed e =>
    let tagged := e.tags.any fun t => c.tags.contains t
    match c.kind with
    | .cardPlayed => c.tags.isEmpty || tagged
    | .tagPlayed => if c.tags.isEmpty then !e.tags.isEmpty else tagged
    | _ => false
  | .bonusGained e =>
    c.kind == .placementBonusGained &&
      (c.resources.isEmpty || c.resources.any fun
        | .resource r => 0 < e.resources.get r
        | _ => false)
  | .phaseChanged _ | .drawConfirmed _ => false

def CardEffect.eventKind? (e : CardEffect) : Option EventKind :=
  e.behavior.condition?.bind (·.kind.eventKind?)

namespace Session

def subscriptionsOf (s : Session) (card : CardId) : List SubscriptionId :=
  (s.subscribed.get? card).getD []

/-- Binds an effect to the events it listens to, if there are any. -/
def subscribe (s : Session) (owner : PlayerId) (e : CardEffect) : Option SubscriptionId × Session :=
  match e.eventKind? with
  | none => (none, s)
  | some kind =>
    let (id, bus) := s.bus.subscribe kind (.effect owner e)
    (some id, { s with bus, subscribed := s.subscribed.put e.card (s.subscriptionsOf e.card ++ [id]) })

/-- Binds the passive behaviors of a card and says how many subscriptions that made. -/
def subscribeCard (s : Session) (owner : PlayerId) (card : Card) : Nat × Session :=
  (card.behaviors.zipIdx.filter (·.1.shape == .passive)).foldl
    (fun (n, s) (behavior, index) =>
      match s.subscribe owner { card := card.id, name := card.name, index, behavior } with
      | (some _, s) => (n + 1, s)
      | (none, s) => (n, s))
    (0, s)

def unsubscribe (s : Session) (card : CardId) : Session :=
  { s with
    bus := s.bus.unsubscribeAll (s.subscriptionsOf card)
    subscribed := s.subscribed.erase card }

/-- Drops those of every card and says how many were still there. -/
def unsubscribeAll (s : Session) : Nat × Session :=
  let ids := s.subscribed.flatMap (·.2)
  (ids.countP s.bus.isRegistered, { s with bus := s.bus.unsubscribeAll ids, subscribed := [] })

def dropCard : Dropping Session := fun card s => (.ok (), s.unsubscribe card)

end Session

end MarsRules
