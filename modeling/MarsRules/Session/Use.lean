import MarsRules.Session.Play

/-! Using an action that a played card offers, once in a generation: its inputs are charged and its
outputs applied as one plan, which also uses it up. -/

namespace MarsRules

namespace Plan

def checkPool (plan : Plan) (p : Player) : Except Refusal Unit :=
  match p.resources.shortfall? plan.resources with
  | some (r, held, need) => .error (.shortfall r held need)
  | none => .ok ()

def checkTokens (plan : Plan) (p : Player) : Except Refusal Unit :=
  plan.storage.forM fun (card, n) =>
    let held := p.tokens card
    if addInt32 held n < 0 then
      .error (.insufficientResources
        s!"insufficient resources on {card}: have {held}, need {wrapInt32 (-n)}")
    else .ok ()

/-- Whether the productions that are charged stay at or above their floors. -/
def checkProduction (plan : Plan) (rules : Rules) (p : Player) : Except Refusal Unit :=
  plan.production.toList.forM fun (r, n) =>
    let level := addInt32 (p.production.get r) n
    let floor := rules.productionFloor r
    if n < 0 ∧ level < floor then .error (.belowFloor r level floor) else .ok ()

/-- What one use of an action does; refused if the player cannot bear it. -/
def ofAction (rules : Rules) (p : Player) (action : CardAction) (choice : Option Nat)
    (target : Option CardId) : Except Refusal Plan := do
  let b := action.behavior
  checkChoice b.choices.length choice
  let blank : Plan := { player := p.id, source := action.card }
  let scope : Scope := { card := action.card, played := p.played, target }
  let charged ← blank.addInputs (b.inputsWith choice) scope
  charged.checkPool p
  charged.checkTokens p
  charged.checkProduction rules p
  checkProductionFloors rules (p.production + charged.production) (b.outputsWith choice)
  let plan ← charged.addOutputs (b.outputsWith choice) scope
  plan.checkPool p
  return { plan with used := some (action.card, action.index) }

end Plan

def Player.findAction (p : Player) (card : CardId) (index : Nat) : Except Refusal CardAction :=
  match p.action? card index with
  | none => .error (.noAction card index)
  | some action =>
    if action.isAvailable then .ok action
    else .error (.invalidAction s!"action on {action.name} already played this generation")

namespace Engine

/-- Everything of a use but its announcements. -/
def commitUse (rules : Rules) (p : PlayerId) (card : CardId) (index : Nat) (choice : Option Nat)
    (target : Option CardId) : Engine (List Event) := do
  let player ← readPlayer p
  let action ← player.findAction card index
  let plan ← Plan.ofAction rules player action choice target
  plan.commit rules true

def useAction (book : Rulebook) (p : PlayerId) (card : CardId) (index : Nat)
    (choice : Option Nat) (target : Option CardId) : Engine Unit := do
  announce book (← commitUse book.rules p card index choice target)

/-- Makes the used actions of these players usable again, player by player. -/
def renewActions : List Player → Engine Unit
  | [] => return
  | player :: rest => do
    if player.actions.any (0 < ·.plays) then
      update player.id (.actions (player.actions.map fun a => { a with plays := 0 }))
    renewActions rest

end Engine

end MarsRules
