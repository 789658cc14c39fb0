import MarsRules.Player
import MarsRules.Rules

/-! What a card costs a player and whether an offered payment covers it. A payment is checked
against the price and the pool, then taken from the pool. -/

namespace MarsRules

structure Payment where
  credits : Int := 0
  steel : Int := 0
  titanium : Int := 0
  /-- Other resources offered, in the order of their kinds. -/
  substitutes : List (ResourceKind × Int) := []
deriving DecidableEq, Repr, Inhabited

structure Price where
  cost : Int
  acceptsSteel : Bool
  acceptsTitanium : Bool
  substitutes : List Substitute
deriving DecidableEq, Repr, Inhabited

namespace Price

def rate? (p : Price) (r : BaseResource) : Option Int :=
  (p.substitutes.find? (·.resource == r)).map (·.rate)

end Price

/-- What the player's effects take off the cost of a card. -/
def Player.discount (p : Player) (c : Card) : Int :=
  let applying := (p.modifiers .discount).filter fun item =>
    item.tags.isEmpty || item.tags.any c.hasTag
  wrapInt32 (total (applying.map (·.amount)))

/-- The price of a card for a player: steel pays for buildings, titanium for space. -/
def Card.price (c : Card) (p : Player) : Price where
  cost := max 0 (wrapInt32 (c.cost - p.discount c))
  acceptsSteel := c.hasTag .building
  acceptsTitanium := c.hasTag .space
  substitutes := p.substitutes

namespace Payment

/-- Sets the amount of one substitute, keeping the order of the kinds. -/
def insert (kind : ResourceKind) (n : Int) :
    List (ResourceKind × Int) → List (ResourceKind × Int)
  | [] => [(kind, n)]
  | (k, m) :: rest =>
    if k = kind then (kind, n) :: rest
    else if kind.precedes k then (kind, n) :: (k, m) :: rest
    else (k, m) :: insert kind n rest

def withSubstitute (p : Payment) (kind : ResourceKind) (n : Int) : Payment :=
  { p with substitutes := insert kind n p.substitutes }

def outOfRange : Refusal := .invalidPayment "payment value out of range"

def fit (n : Int) : Except Refusal Int :=
  match fitInt32? n with
  | some n => .ok n
  | none => .error outOfRange

def resource (kind : ResourceKind) : Except Refusal BaseResource :=
  match kind with
  | .resource r => .ok r
  | other => .error (.unknownSubstitute other.word)

/-- What the payment takes from the pool. -/
def debit (p : Payment) : Except Refusal ResourceSet :=
  p.substitutes.foldlM
    (fun total (kind, n) => do
      let r ← resource kind
      return total.set r (← fit (total.get r + n)))
    { credits := p.credits, steel := p.steel, titanium := p.titanium }

def hasNegative (p : Payment) : Bool :=
  p.credits < 0 || p.steel < 0 || p.titanium < 0 || p.substitutes.any (·.2 < 0)

/-- What the payment is worth; every partial sum has to fit 32 bits. -/
def worth (p : Payment) (rules : Rules) (price : Price) : Except Refusal Int := do
  let steel ← fit (p.steel * rules.steelValue)
  let titanium ← fit (p.titanium * rules.titaniumValue)
  let metals ← fit ((← fit (p.credits + steel)) + titanium)
  p.substitutes.foldlM
    (fun value (kind, n) => do
      let r ← resource kind
      match price.rate? r with
      | some rate => fit (value + (← fit (n * rate)))
      | none => throw (.invalidPayment s!"{r.word} is not accepted as payment"))
    metals

/-- Whether the pool holds what the payment takes, counter by counter. -/
def checkHeld (debit pool : ResourceSet) : Except Refusal Unit :=
  match BaseResource.all.find? fun r => pool.get r < debit.get r with
  | some r => .error (.shortfall r (pool.get r) (debit.get r))
  | none => .ok ()

/-- A payment has to be worth the cost, without a credit more than needed. -/
def check (p : Payment) (rules : Rules) (price : Price) (pool : ResourceSet) :
    Except Refusal Unit := do
  if p.hasNegative then throw (.invalidPayment "payment amounts cannot be negative")
  if 0 < p.steel ∧ !price.acceptsSteel then throw (.invalidPayment "card does not accept steel")
  if 0 < p.titanium ∧ !price.acceptsTitanium then
    throw (.invalidPayment "card does not accept titanium")
  checkHeld (← p.debit) pool
  let value ← p.worth rules price
  if value < price.cost then
    throw (.invalidPayment s!"payment worth {value} does not cover cost {price.cost}")
  let needed := max 0 (wrapInt32 (price.cost - wrapInt32 (value - p.credits)))
  if needed < p.credits then
    throw (.invalidPayment
      s!"overpaying with credits: offered {p.credits}, at most {needed} needed")

/-- What is left of the pool after the payment. -/
def takeFrom (p : Payment) (pool : ResourceSet) : Except Refusal ResourceSet := do
  let delta := -(← p.debit)
  match pool.shortfall? delta with
  | some (r, held, need) => throw (.shortfall r held need)
  | none => return pool + delta

/-! As JSON. -/

def toJson (p : Payment) : Json :=
  let substitutes : Json.Entry :=
    if p.substitutes.isEmpty then none
    else some ("substitutes", .object (p.substitutes.map fun (k, n) => (k.word, .int n)))
  .record [
    .always "credits" (.int p.credits),
    .always "steel" (.int p.steel),
    .always "titanium" (.int p.titanium),
    substitutes]

def ofJson? (j : Json) : Option Payment := do
  let f ← Json.Fields.of? ["credits", "steel", "titanium", "substitutes"] j
  let substitutes ← f.defaulted "substitutes" [] (Json.asTable? Json.asInt32?)
  return {
    credits := ← f.defaulted "credits" 0 Json.asInt32?
    steel := ← f.defaulted "steel" 0 Json.asInt32?
    titanium := ← f.defaulted "titanium" 0 Json.asInt32?
    substitutes := substitutes.foldl (fun s (w, n) => insert (.ofWord w) n s) [] }

end Payment

namespace Card

/-- The base resources that the inputs of the immediate behaviors take, as a change of the pool. -/
def immediateInputs (c : Card) (choice : Option Nat) : ResourceSet :=
  ((c.shaped .immediate).flatMap (·.inputsWith choice)).foldl
    (fun delta item => match item.kind with
      | .resource r => delta.add r item.charge.amount
      | _ => delta) {}

/-- All that the immediate behaviors take from the player's own pool: inputs, and reductions among
the outputs unless others bear them. -/
def immediateCosts (c : Card) (choice : Option Nat) : ResourceSet :=
  ((c.shaped .immediate).flatMap (·.outputsWith choice)).foldl
    (fun delta item => match item.kind with
      | .resource r =>
        if item.amount < 0 && !item.chargesOther then delta.add r item.amount else delta
      | _ => delta)
    (c.immediateInputs choice)

end Card

end MarsRules
