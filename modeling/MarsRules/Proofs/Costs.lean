import MarsRules.Proofs.Charges

/-! The same inputs on two paths: those of an immediate behavior, which a play takes, and those of an
action, which a use takes. A play takes resources out of the pool, whoever the inputs name, and nothing
else; a use takes productions and tokens as well, and passes over what names other players
(`Engine.play_use_costs`). -/

namespace MarsRules

def costOf (kind : ResourceKind) (inputs : List LineItem) : Int :=
  total ((inputs.filter (·.kind == kind)).map (·.cost))

namespace Behavior

/-- What the inputs take from a counter where the behavior is immediate. -/
def playCost (b : Behavior) (choice : Option Nat) : Counter → Int
  | .pool r => costOf (.resource r) (b.inputsWith choice)
  | .production _ | .tokens _ => 0

/-- What they take from it where the behavior is an action. -/
def useCost (b : Behavior) (choice : Option Nat) (scope : Scope) (k : Counter) : Int :=
  costOn scope k (paidOf scope (b.inputsWith choice))

end Behavior

def Card.playCost (c : Card) (choice : Option Nat) (k : Counter) : Int :=
  total ((c.shaped .immediate).map (·.playCost choice k))

namespace Player

/-- The record when the inputs of a card come to be charged: the payment is taken, and the card has the
tokens that it starts with. -/
def readied (x : Player) (card : Card) (paid : ResourceSet) : Player :=
  { x with
    resources := paid
    storage := card.storage.elim x.storage fun t => x.storage.put card.id t.starting }

/-- Every counter is what it was, less the cost and with what the outputs give. -/
def Balances (before after : Player) (scope : Scope) (cost : Counter → Int) (outputs : List LineItem) :
    Prop :=
  ∀ k, AddsUp (before.count k) (amountOn scope k (ownOutputs outputs) - cost k) (after.count k)

end Player

section Amounts

variable {scope : Scope} {items : List LineItem}

theorem costOf_resource (r : BaseResource) :
    costOf (.resource r) items = costOn scope (.pool r) items := by
  rw [costOf, costOn, filter_resource]

theorem dvd_costOf_sub (kind : ResourceKind) :
    4294967296 ∣ costOf kind items - amountOf kind items := by
  induction items with
  | nil => exact ⟨0, rfl⟩
  | cons item rest ih =>
    have := item.dvd_cost_sub
    simp only [costOf, amountOf, List.filter_cons] at ih ⊢
    split
    · simp only [List.map_cons, total]
      omega
    · exact ih

theorem costOf_flatMap {α : Type} (kind : ResourceKind) (f : α → List LineItem) (as : List α) :
    costOf kind (as.flatMap f) = total (as.map fun a => costOf kind (f a)) := by
  induction as with
  | nil => rfl
  | cons a rest ih =>
    rw [List.flatMap_cons, List.map_cons, total, ← ih]
    simp [costOf, total_append]

theorem total_zero {α : Type} (as : List α) : total (as.map fun _ => 0) = 0 := by
  induction as with
  | nil => rfl
  | cons a rest ih => rw [List.map_cons, total, ih, Int.add_zero]

theorem costOn_waived_eq_zero {k : Counter}
    (h : ∀ item ∈ items, item.counter? scope = some k → item.isWaived scope = false) :
    costOn scope k (waivedOf scope items) = 0 := by
  have hnone : (waivedOf scope items).filter (·.counter? scope == some k) = [] := by
    refine List.filter_eq_nil_iff.mpr fun item hi hk => ?_
    obtain ⟨hi, hwaived⟩ := List.mem_filter.mp hi
    rw [h item hi (beq_iff_eq.mp hk)] at hwaived
    cases hwaived
  rw [costOn, hnone]
  rfl

end Amounts

theorem Behavior.costs_alike_iff (b : Behavior) (choice : Option Nat) (scope : Scope) :
    (∀ k, b.playCost choice k = b.useCost choice scope k) ↔
      (∀ item ∈ b.inputsWith choice, ∀ r, item.kind = .resource r → item.isWaived scope = false) ∧
      (∀ r, b.useCost choice scope (.production r) = 0) ∧ ∀ card, b.useCost choice scope (.tokens card) = 0 := by
  have hpool : ∀ r, b.playCost choice (.pool r) = b.useCost choice scope (.pool r) +
      costOn scope (.pool r) (waivedOf scope (b.inputsWith choice)) :=
    fun r => (costOf_resource r).trans costOn_split
  constructor
  · intro h
    refine ⟨fun item hi r hk => ?_, fun r => (h _).symm, fun card => (h _).symm⟩
    by_contra hw
    have := costOn_waived_pos hi (by simpa using hw) (counter?_eq_pool.mpr hk)
    have := hpool r
    have := h (.pool r)
    omega
  · rintro ⟨hnone, hproduction, htokens⟩ (r | r | card)
    · rw [hpool r, costOn_waived_eq_zero fun item hi hk =>
        hnone item hi r (counter?_eq_pool.mp hk), Int.add_zero]
    · exact (hproduction r).symm
    · exact (htokens card).symm

namespace Card

variable (c : Card) (choice : Option Nat)

theorem playCost_pool (r : BaseResource) :
    c.playCost choice (.pool r) = costOf (.resource r) (c.spends choice) :=
  (costOf_flatMap (.resource r) _ _).symm

theorem playCost_production (r : BaseResource) : c.playCost choice (.production r) = 0 := total_zero _

theorem playCost_tokens (card : CardId) : c.playCost choice (.tokens card) = 0 := total_zero _

end Card

theorem readied_count (player : Player) (card : Card) (choice : Option Nat) (paid : ResourceSet)
    (k : Counter) : AddsUp ((player.readied card paid).count k) (-card.playCost choice k)
      ((paidRecord player card choice paid).count k) := by
  cases k with
  | pool r =>
    show AddsUp (paid.get r) _ ((paid + card.immediateInputs choice).get r)
    have hcost : wrapInt32 (-card.playCost choice (.pool r)) =
        wrapInt32 (-amountOf (.resource r) (card.spends choice)) := by
      have hdvd : 4294967296 ∣ costOf (.resource r) (card.spends choice) - _ := dvd_costOf_sub _
      rw [card.playCost_pool, wrapInt32_eq_iff]
      omega
    rw [ResourceSet.get_add, Card.get_immediateInputs, ← hcost]
    exact .add_wrap _ _
  | production r =>
    rw [card.playCost_production, Int.neg_zero]
    exact .refl _
  | tokens c =>
    rw [card.playCost_tokens, Int.neg_zero]
    exact .refl _

theorem balances_of_plan {player : Player} {card : Card} {choice : Option Nat} {paid : ResourceSet}
    {target : Option CardId} {plan : Plan}
    (hplan : Plan.ofCard card (paidRecord player card choice paid) choice target = .ok plan) :
    (player.readied card paid).Balances (plan.addTo (paidRecord player card choice paid))
      { card := card.id, played := player.played ++ [card.id], target }
      (card.playCost choice) (card.gains choice) := by
  intro k
  have hadds : wrapInt32 (plan.addsTo k) = _ := (Plan.ofCard_gains hplan).1.addsTo k
  have hgiven := plan.count_addTo (paidRecord player card choice paid) k
  rw [← AddsUp.wrap_iff, hadds, AddsUp.wrap_iff] at hgiven
  rw [Int.sub_eq_add_neg, Int.add_comm]
  exact (readied_count player card choice paid k).trans hgiven

namespace Engine

variable {book : Rulebook} {rules : Rules} {p q : PlayerId} {r : PlayRequest} {card : CardId} {index : Nat}
  {choice : Option Nat} {target : Option CardId} {w v w' v' : World} {events events' : List Event}

theorem commitPlay_balances (h : commitPlay book p r w = (.ok events, v)) :
    ∃ player card paid after, w.player? p = some player ∧ book.catalog.find? r.card = some card ∧
      r.payment.takeFrom player.resources = .ok paid ∧ v.player? p = some after ∧
      (player.readied card paid).Balances after
        { card := card.id, played := after.played, target := r.target }
        (card.playCost r.choice) (card.gains r.choice) := by
  obtain ⟨game, player, card, paid, plan, w₁, -, -, hp, hcard, hpaid, hplan, -, hreached⟩ :=
    commitPlay_planned h
  have hafter := plan.reached_player book.rules w₁ game.board
    ⟨paidRecord player card r.choice paid, [], w₁.session, w₁.store.decks⟩
  have hv := hreached.player?
  rw [hafter] at hv
  refine ⟨player, card, paid, _, hp, hcard, hpaid, World.player?_id hp ▸ hv, fun k => ?_⟩
  cases k <;> exact balances_of_plan hplan _

theorem commitUse_balances (h : commitUse rules q card index choice target w = (.ok events, v)) :
    ∃ user action after, w.player? q = some user ∧ user.action? card index = some action ∧
      v.player? q = some after ∧
      user.Balances after (action.scope user target)
        (action.behavior.useCost choice (action.scope user target)) (action.behavior.outputsWith choice) := by
  obtain ⟨user, action, -, -, -, hq, haction, -⟩ := commitUse_reached h
  have haction := (Player.findAction_ok haction).1
  obtain ⟨_, after, -, hafter, hcount⟩ := commitUse_count h hq haction
  exact ⟨user, action, after, hq, haction, hafter, hcount⟩

/-- Of a play and of a use, what each has taken from the counters of the record. For one and the same
behavior they take the same exactly if no input from the pool names other players, and those from
productions and cards that a use would charge come to nothing. -/
theorem play_use_costs (hplay : commitPlay book p r w = (.ok events, v))
    (huse : commitUse rules q card index choice target w' = (.ok events', v')) :
    (∃ player card paid after, w.player? p = some player ∧ book.catalog.find? r.card = some card ∧
      r.payment.takeFrom player.resources = .ok paid ∧ v.player? p = some after ∧
      (player.readied card paid).Balances after
        { card := card.id, played := after.played, target := r.target }
        (card.playCost r.choice) (card.gains r.choice)) ∧
    (∃ user action after, w'.player? q = some user ∧ user.action? card index = some action ∧
      v'.player? q = some after ∧
      user.Balances after (action.scope user target)
        (action.behavior.useCost choice (action.scope user target))
        (action.behavior.outputsWith choice)) ∧
    ∀ (b : Behavior) choice scope, (∀ k, b.playCost choice k = b.useCost choice scope k) ↔
      (∀ item ∈ b.inputsWith choice, ∀ r, item.kind = .resource r → item.isWaived scope = false) ∧
      (∀ r, b.useCost choice scope (.production r) = 0) ∧
      ∀ card, b.useCost choice scope (.tokens card) = 0 :=
  ⟨commitPlay_balances hplay, commitUse_balances huse, Behavior.costs_alike_iff⟩

def stove : Behavior where
  triggers := [{ type := .auto }]
  inputs := [{ kind := .resource .heat, amount := 2 }]
  choices := [{ inputs := [{ kind := .resource .energy, amount := 1 }] }]

/-- A production, and heat that others are named for. -/
def kiln : Behavior where
  triggers := [{ type := .auto }]
  inputs := [
    { kind := .production .energy, amount := 1 },
    { kind := .resource .heat, amount := 4, target := some .anyPlayer }]

/-- An action with the inputs and the choices of a behavior. -/
def asAction (index : Nat) (b : Behavior) : CardAction where
  card := "lab"
  name := "Lab"
  index := index
  behavior := { b with triggers := [{ type := .manual }] }

def asEvent (id : CardId) (b : Behavior) : Card where
  id := id
  name := id
  type := .event
  behaviors := [b]

def workshop : Rulebook where
  catalog := ⟨[asEvent "stove" stove, asEvent "kiln" kiln]⟩
  rules := {}
  depth := 8

def potter : Player :=
  { Player.named "player" with
    hand := ["stove", "kiln"], played := ["lab"], actions := [asAction 0 stove, asAction 1 kiln]
    resources := { energy := 1, heat := 4 }, production := { energy := 2 } }

def pottery : World where
  store := { games := [("game", { id := "game" })], rosters := [("game", [potter])] }
  session := { game := "game" }

theorem play_use_costs_stove :
    let r : PlayRequest := { card := "stove", choice := some 0 }
    ∃ events v events' v', commitPlay workshop "player" r pottery = (.ok events, v) ∧
      commitUse workshop.rules "player" "lab" 0 (some 0) none pottery = (.ok events', v') ∧
      (∃ player card paid after, pottery.player? "player" = some player ∧
        workshop.catalog.find? "stove" = some card ∧
        r.payment.takeFrom player.resources = .ok paid ∧ v.player? "player" = some after ∧
        (player.readied card paid).Balances after { card := card.id, played := after.played, target := none }
          (card.playCost (some 0)) (card.gains (some 0))) ∧
      ∀ scope k, stove.playCost (some 0) k = stove.useCost (some 0) scope k := by
  intro r
  have hplayed : (commitPlay workshop "player" r pottery).1 =
      .ok [(asEvent "stove" stove).event "game" "player"] := by rfl
  have hused : (commitUse workshop.rules "player" "lab" 0 (some 0) none pottery).1 = .ok [] := by rfl
  obtain ⟨hcharged, -, halike⟩ :=
    play_use_costs (Prod.fst_eq_iff.mp hplayed) (Prod.fst_eq_iff.mp hused)
  refine ⟨_, _, _, _, Prod.fst_eq_iff.mp hplayed, Prod.fst_eq_iff.mp hused, hcharged, fun scope => ?_⟩
  refine (halike stove (some 0) scope).mpr ⟨?_, fun r => by cases r <;> rfl, fun card => rfl⟩
  intro item hi c _
  rcases List.mem_cons.mp hi with rfl | hi
  · rfl
  · rw [List.mem_singleton.mp hi]
    rfl

/-- The production is charged for the action alone, and the heat for the play alone. -/
theorem play_use_unlike :
    let played := play workshop "player" { card := "kiln" } pottery
    let used := useAction workshop "player" "lab" 1 none none pottery
    (asAction 1 kiln).behavior.inputs = kiln.inputs ∧ played.1 = .ok () ∧ used.1 = .ok () ∧
      (played.2.player? "player").map (fun x => (x.production.energy, x.resources.heat)) = some (2, 0) ∧
      (used.2.player? "player").map (fun x => (x.production.energy, x.resources.heat)) = some (1, 4) :=
  ⟨rfl, by decide +kernel, by decide +kernel, by decide +kernel, by decide +kernel⟩

end Engine

end MarsRules
