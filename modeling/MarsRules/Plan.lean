import MarsRules.Player
import MarsRules.Refusal

/-! Everything that one application of effects will write, gathered before anything is written. An
item that cannot be planned is refused here. -/

namespace MarsRules

/-- Where the tokens of a planned item may go. -/
structure Scope where
  /-- The card whose behavior is applied. -/
  card : CardId
  played : List CardId
  /-- The card the player has chosen for tokens that may go to any card. -/
  target : Option CardId

structure Plan where
  player : PlayerId
  /-- The card the effects come from. -/
  source : CardId
  production : ResourceSet := {}
  actions : List CardAction := []
  /-- The action that is used up. -/
  used : Option (CardId × Nat) := none
  effects : List CardEffect := []
  points : Int := 0
  resources : ResourceSet := {}
  rating : Int := 0
  storage : List (CardId × Int) := []
  tiles : List TileKind := []
  parameters : List (GlobalParameter × Int) := []
  draw : Nat := 0
deriving DecidableEq, Repr, Inhabited

namespace Plan

def isEmpty (p : Plan) : Bool :=
  p.production.isZero && p.actions.isEmpty && p.used.isNone && p.effects.isEmpty &&
    p.points == 0 && p.resources.isZero && p.rating == 0 && p.storage.isEmpty &&
    p.tiles.isEmpty && p.parameters.all (·.2 == 0) && p.draw == 0

/-- Adds to the steps of a parameter, or notes a parameter that was not there yet. -/
def addSteps (q : GlobalParameter) (n : Int) :
    List (GlobalParameter × Int) → List (GlobalParameter × Int)
  | [] => [(q, n)]
  | (p, m) :: rest => if p = q then (p, saturateInt32 (m + n)) :: rest else (p, m) :: addSteps q n rest

def addParameterSteps (p : Plan) (q : GlobalParameter) (n : Int) : Plan :=
  { p with parameters := addSteps q n p.parameters }

/-- The card that tokens go to. Tokens for any card are lost if no card is chosen, and the card has
to be a played one. -/
def storageTarget? (item : LineItem) (scope : Scope) : Except Refusal (Option CardId) :=
  match item.target with
  | none | some .selfCard => .ok (some scope.card)
  | some .anyCard => match scope.target with
    | none => .ok none
    | some card =>
      if card = "" then .ok none
      else if scope.played.contains card then .ok (some card)
      else .error (.storageTargetNotFound card)
  | some other => .error (.unsupported s!"card storage output with target {other.title}")

/-- Plans one output. A reduction that others bear is left out, and so is what cannot be applied. -/
def addOutput (p : Plan) (item : LineItem) (scope : Scope) : Except Refusal Plan :=
  if item.chargesOther then .ok p
  else match item.kind with
    | .production r => .ok { p with production := p.production.add r item.amount }
    | .resource r => .ok { p with resources := p.resources.add r item.amount }
    | .terraformRating => .ok { p with rating := addInt32 p.rating item.amount }
    | .cardStorage _ => do
      match ← storageTarget? item scope with
      | some card => return { p with storage := p.storage ++ [(card, item.amount)] }
      | none => return p
    | .tilePlacement t => .ok { p with tiles := p.tiles ++ List.replicate item.amount.toNat t }
    | .globalParameter q => .ok (p.addParameterSteps q item.amount)
    | .cardDraw => .ok { p with draw := saturateNat32 (p.draw + item.amount.toNat) }
    | _ => .ok p

/-- Plans one input as a cost; only pools, productions and tokens can be charged. -/
def addInput (p : Plan) (item : LineItem) (scope : Scope) : Except Refusal Plan :=
  match item.kind with
  | .resource _ | .production _ | .cardStorage _ => p.addOutput item.charge scope
  | _ => .ok p

def addOutputs (p : Plan) (items : List LineItem) (scope : Scope) : Except Refusal Plan :=
  items.foldlM (fun p item => p.addOutput item scope) p

def addInputs (p : Plan) (items : List LineItem) (scope : Scope) : Except Refusal Plan :=
  items.foldlM (fun p item => p.addInput item scope) p

/-- Plans what one behavior of a card does when the card is played. -/
def addBehavior (p : Plan) (card : Card) (index : Nat) (b : Behavior) (choice : Option Nat)
    (scope : Scope) : Except Refusal Plan :=
  let effect : CardEffect := { card := card.id, name := card.name, index, behavior := b }
  match b.shape with
  | .immediate =>
    let p := if b.modifiers.isEmpty then p else { p with effects := p.effects ++ [effect] }
    p.addOutputs (b.outputsWith choice) scope
  | .manual =>
    let action : CardAction := { card := card.id, name := card.name, index, behavior := b }
    .ok { p with actions := p.actions ++ [action] }
  | .passive => .ok { p with effects := p.effects ++ [effect] }
  | .firstAction | .inert => .ok p

def ofCard (card : Card) (player : Player) (choice : Option Nat) (target : Option CardId) :
    Except Refusal Plan := do
  let scope : Scope := { card := card.id, played := player.played, target }
  let blank : Plan := { player := player.id, source := card.id }
  let p ← card.behaviors.zipIdx.foldlM
    (fun p (b, index) => p.addBehavior card index b choice scope) blank
  let fixed := card.victoryPoints.filter (·.kind == .fixed)
  return { p with points := wrapInt32 (total (fixed.map (·.amount))) }

end Plan

end MarsRules
