import MarsRules.Proofs.Generations
import MarsRules.Proofs.Solvency

/-! What the use of an action takes from each counter of the player: an input is charged as an output
of the opposite sign, so one that others would bear, or that finds no card, is not charged at all. -/

namespace MarsRules

/-- A number in a player's record that an input can be charged to. -/
inductive Counter where
  | pool (r : BaseResource)
  | production (r : BaseResource)
  | tokens (card : CardId)
deriving DecidableEq

def Player.count (x : Player) : Counter → Int
  | .pool r => x.resources.get r
  | .production r => x.production.get r
  | .tokens card => x.tokens card

namespace LineItem

/-- The counter that an item changes, if it changes one. -/
def counter? (scope : Scope) (item : LineItem) : Option Counter :=
  match item.kind with
  | .resource r => some (.pool r)
  | .production r => some (.production r)
  | .cardStorage _ => (item.holder? scope).map .tokens
  | _ => none

/-- What an input takes where it is charged. That is its amount, but for the one number of 32 bits
that has no opposite. -/
def cost (item : LineItem) : Int := -item.charge.amount

/-- An input of a kind that can be charged. -/
def isCost (item : LineItem) : Bool :=
  match item.kind with
  | .resource _ | .production _ | .cardStorage _ => true
  | _ => false

/-- An input that is passed over: it names other players, or tokens of any card while none is chosen. -/
def isWaived (scope : Scope) (item : LineItem) : Bool :=
  item.isCost && (item.charge.chargesOther || item.counter? scope == none)

@[simp] theorem counter?_charge (scope : Scope) (item : LineItem) :
    item.charge.counter? scope = item.counter? scope := rfl

theorem cost_le_of_held {item : LineItem} {n : Int} (hn : 0 ≤ n) (hfits : FitsInt32 n)
    (h : 0 ≤ addInt32 n (-item.cost)) : item.cost ≤ n := by
  have hcost : FitsInt32 (-item.cost) := by
    rw [cost, Int.neg_neg]
    exact fits_wrapInt32 _
  by_contra hlt
  have hleft : FitsInt32 (n + -item.cost) := by
    simp only [FitsInt32, minInt32, maxInt32] at *
    omega
  rw [addInt32_exact hleft] at h
  omega

theorem dvd_cost_sub (item : LineItem) : 4294967296 ∣ item.cost - item.amount := by
  have := dvd_wrapInt32_sub (-item.amount)
  simp only [cost, charge]
  omega

end LineItem

def amountOn (scope : Scope) (c : Counter) (items : List LineItem) : Int :=
  total ((items.filter (·.counter? scope == some c)).map (·.amount))

def costOn (scope : Scope) (c : Counter) (inputs : List LineItem) : Int :=
  total ((inputs.filter (·.counter? scope == some c)).map (·.cost))

def paidOf (scope : Scope) (inputs : List LineItem) : List LineItem :=
  inputs.filter (!·.isWaived scope)

def waivedOf (scope : Scope) (inputs : List LineItem) : List LineItem :=
  inputs.filter (·.isWaived scope)

theorem le_total {n : Int} {ns : List Int} (h : ∀ m ∈ ns, 0 ≤ m) (hn : n ∈ ns) : n ≤ total ns := by
  obtain ⟨before, after, rfl⟩ := List.append_of_mem hn
  have hbefore := total_nonneg fun m hm => h m (List.mem_append_left _ hm)
  have hafter := total_nonneg fun m hm => h m (List.mem_append_right _ (List.mem_cons_of_mem _ hm))
  rw [total_append, total]
  omega

section Amounts

variable {scope : Scope} {c : Counter} {items items' : List LineItem} {item : LineItem}

theorem amountOn_append : amountOn scope c (items ++ items') = amountOn scope c items + amountOn scope c items' := by
  simp [amountOn, total_append]

theorem amountOn_cons : amountOn scope c (item :: items) =
    (if item.counter? scope = some c then item.amount else 0) + amountOn scope c items := by
  by_cases h : item.counter? scope = some c <;> simp [amountOn, h, total]

theorem counter?_eq_pool {r : BaseResource} : item.counter? scope = some (.pool r) ↔ item.kind = .resource r := by
  unfold LineItem.counter?
  split <;> simp_all

theorem filter_resource (r : BaseResource) :
    items.filter (·.kind == .resource r) = items.filter (·.counter? scope == some (.pool r)) := by
  refine List.filter_congr fun item _ => ?_
  rw [Bool.eq_iff_iff, beq_iff_eq, beq_iff_eq, counter?_eq_pool]

theorem amountOf_resource (r : BaseResource) : amountOf (.resource r) items = amountOn scope (.pool r) items := by
  rw [amountOf, amountOn, filter_resource]

theorem sumOf_resource (r : BaseResource) : sumOf (.resource r) items = amountOn scope (.pool r) (ownOutputs items) :=
  amountOf_resource r

theorem sumOf_production (r : BaseResource) :
    sumOf (.production r) items = amountOn scope (.production r) (ownOutputs items) := by
  unfold sumOf amountOf amountOn
  congr 2
  refine List.filter_congr fun item _ => ?_
  cases hk : item.kind <;> simp [LineItem.counter?, hk]

theorem total_tokensOf (card : CardId) :
    total (((tokensOf scope items).filter (·.1 == card)).map (·.2)) =
      amountOn scope (.tokens card) (ownOutputs items) := by
  unfold tokensOf
  induction ownOutputs items with
  | nil => rfl
  | cons item rest ih =>
    rw [amountOn_cons, ← ih, List.filterMap_cons]
    cases hk : item.kind <;> simp [LineItem.counter?, hk]
    cases hh : item.holder? scope with
    | none => simp
    | some d => by_cases hd : d = card <;> simp [hd, total]

theorem costOn_cons : costOn scope c (item :: items) =
    (if item.counter? scope = some c then item.cost else 0) + costOn scope c items := by
  by_cases h : item.counter? scope = some c <;> simp [costOn, h, total]

theorem costOn_append :
    costOn scope c (items ++ items') = costOn scope c items + costOn scope c items' := by
  simp [costOn, total_append]

theorem dvd_costOn_sub : 4294967296 ∣ costOn scope c items - amountOn scope c items := by
  induction items with
  | nil => exact ⟨0, rfl⟩
  | cons item rest ih =>
    have := item.dvd_cost_sub
    rw [costOn_cons, amountOn_cons]
    split <;> omega

theorem amountOn_charge :
    amountOn scope c (ownOutputs (chargesOf [item])) = -costOn scope c (paidOf scope [item]) := by
  have hcost : chargesOf [item] = if item.isCost then [item.charge] else [] := by
    cases hk : item.kind <;> simp [chargesOf, LineItem.isCost, hk]
  cases hc : item.isCost with
  | false =>
    have hnone : item.counter? scope = none := by
      cases hk : item.kind <;> simp [LineItem.counter?, LineItem.isCost, hk] at hc ⊢
    simp [hcost, hc, ownOutputs, paidOf, LineItem.isWaived, hnone, amountOn, costOn, total]
  | true =>
    cases hother : item.charge.chargesOther with
    | true => simp [hcost, hc, ownOutputs, hother, paidOf, LineItem.isWaived, amountOn, costOn, total]
    | false =>
      cases hcount : item.counter? scope with
      | none =>
        simp [hcost, hc, ownOutputs, hother, paidOf, LineItem.isWaived, hcount, amountOn, costOn, total]
      | some d =>
        by_cases hd : d = c <;> simp [hcost, hc, ownOutputs, hother, paidOf, LineItem.isWaived, hcount,
          amountOn, costOn, hd, total, LineItem.cost]

theorem amountOn_charges :
    amountOn scope c (ownOutputs (chargesOf items)) = -costOn scope c (paidOf scope items) := by
  induction items with
  | nil => rfl
  | cons item rest ih =>
    have hcharges : chargesOf (item :: rest) = chargesOf [item] ++ chargesOf rest :=
      List.filterMap_append (l := [item])
    have hpaid : paidOf scope (item :: rest) = paidOf scope [item] ++ paidOf scope rest :=
      List.filter_append [item] rest
    rw [hcharges, hpaid, ownOutputs_append, amountOn_append, costOn_append, amountOn_charge, ih]
    omega

theorem costOn_split : costOn scope c items =
    costOn scope c (paidOf scope items) + costOn scope c (waivedOf scope items) := by
  induction items with
  | nil => rfl
  | cons item rest ih =>
    unfold paidOf waivedOf at *
    cases hw : item.isWaived scope <;> simp [hw, costOn_cons, ih] <;> omega

theorem amountOn_nonneg (h : ∀ item ∈ items, item.counter? scope = some c → 0 ≤ item.amount) :
    0 ≤ amountOn scope c items := by
  refine total_nonneg fun n hn => ?_
  obtain ⟨item, hi, rfl⟩ := List.mem_map.mp hn
  obtain ⟨hi, hcount⟩ := List.mem_filter.mp hi
  exact h item hi (by simpa using hcount)

theorem costOn_le_of_single {n : Int} (hn : 0 ≤ n)
    (hone : (items.filter (·.counter? scope == some c)).length ≤ 1)
    (h : ∀ item ∈ items, item.counter? scope = some c → item.cost ≤ n) : costOn scope c items ≤ n := by
  unfold costOn
  match hon : items.filter (·.counter? scope == some c) with
  | [] => simpa [hon, total] using hn
  | [item] =>
    have hi : item ∈ items.filter (·.counter? scope == some c) := by simp [hon]
    obtain ⟨hi, hcount⟩ := List.mem_filter.mp hi
    simpa [hon, total] using h item hi (by simpa using hcount)
  | _ :: _ :: _ => simp [hon] at hone

theorem costOn_waived_pos (hi : item ∈ items) (hw : item.isWaived scope = true)
    (hc : item.counter? scope = some c) : 0 < costOn scope c (waivedOf scope items) := by
  have hpos : ∀ x ∈ waivedOf scope items, x.counter? scope = some c → 0 < x.cost := by
    intro x hx hcount
    have hwaived := (List.mem_filter.mp hx).2
    simp only [LineItem.isWaived, hcount, Bool.and_eq_true, Bool.or_eq_true] at hwaived
    have hother := hwaived.2.resolve_right (by simp)
    have hneg : x.charge.amount < 0 := by
      simpa using (Bool.and_eq_true_iff.mp hother).1
    exact Int.neg_pos_of_neg hneg
  have hmem : item ∈ waivedOf scope items := List.mem_filter.mpr ⟨hi, hw⟩
  have hle : item.cost ≤ costOn scope c (waivedOf scope items) := by
    refine le_total (fun n hn => ?_)
      (List.mem_map.mpr ⟨item, List.mem_filter.mpr ⟨hmem, by simp [hc]⟩, rfl⟩)
    obtain ⟨x, hx, rfl⟩ := List.mem_map.mp hn
    obtain ⟨hx, hcount⟩ := List.mem_filter.mp hx
    exact Int.le_of_lt (hpos x hx (by simpa using hcount))
  have := hpos item hmem hc
  omega

end Amounts

namespace Plan

variable {plan : Plan} {scope : Scope} {c : Counter} {player : Player}

def addsTo (plan : Plan) : Counter → Int
  | .pool r => plan.resources.get r
  | .production r => plan.production.get r
  | .tokens card => total ((plan.storage.filter (·.1 == card)).map (·.2))

theorem Gains.addsTo {p : PlayerId} {source : CardId} {items : List LineItem}
    {actions : List CardAction} {effects : List CardEffect}
    (h : Gains scope { player := p, source } items actions effects plan) (c : Counter) :
    wrapInt32 (plan.addsTo c) = wrapInt32 (amountOn scope c (ownOutputs items)) := by
  cases c with
  | pool r =>
    show wrapInt32 (plan.resources.get r) = _
    rw [h.fresh_resources, wrapInt32_wrapInt32, sumOf_resource]
  | production r =>
    show wrapInt32 (plan.production.get r) = _
    rw [h.fresh_production, wrapInt32_wrapInt32, sumOf_production]
  | tokens card =>
    have hstorage : plan.storage = tokensOf scope items := h.storage
    show wrapInt32 (total ((plan.storage.filter (·.1 == card)).map (·.2))) = _
    rw [hstorage, total_tokensOf]

theorem count_addTo (plan : Plan) (player : Player) (c : Counter) :
    AddsUp (player.count c) (plan.addsTo c) ((plan.addTo player).count c) := by
  cases c with
  | pool r =>
    show AddsUp _ _ ((player.resources + plan.resources).get r)
    rw [ResourceSet.get_add]
    exact .add _ _
  | production r =>
    show AddsUp _ _ ((player.production + plan.production).get r)
    rw [ResourceSet.get_add]
    exact .add _ _
  | tokens card => exact getD_addTokens _ _ _

theorem checkTokens_ok (h : plan.checkTokens player = .ok ()) :
    ∀ t ∈ plan.storage, 0 ≤ addInt32 (player.tokens t.1) t.2 := by
  intro t ht
  have hstep := except_forM_eq_ok h t ht
  dsimp only at hstep
  split at hstep
  · cases hstep
  · omega

end Plan

/-- The player can bear these inputs: the pool and the productions take what they cost, and each card
has the tokens of any one of them. -/
structure Player.Bears (x : Player) (rules : Rules) (scope : Scope) (inputs : List LineItem) : Prop where
  pool : ∀ r, costOn scope (.pool r) inputs ≤ x.resources.get r
  production : ∀ r, 0 < costOn scope (.production r) inputs →
    rules.productionFloor r ≤ x.production.get r - costOn scope (.production r) inputs
  tokens : ∀ item ∈ inputs, ∀ card, item.counter? scope = some (.tokens card) → item.cost ≤ x.tokens card

def Player.CountsFit (x : Player) : Prop := ∀ c, FitsInt32 (x.count c)

/-- No counter leaves 32 bits when these inputs are held against it. -/
structure Player.ChargeFits (x : Player) (scope : Scope) (inputs : List LineItem) : Prop where
  pool : ∀ r, FitsInt32 (x.resources.get r - costOn scope (.pool r) inputs)
  production : ∀ r, FitsInt32 (-costOn scope (.production r) inputs) ∧
    FitsInt32 (x.production.get r - costOn scope (.production r) inputs)
  tokens : ∀ item ∈ inputs, ∀ card, item.counter? scope = some (.tokens card) →
    FitsInt32 (x.tokens card - item.cost)

/-- Every input has a counter to be charged to, and its amount is charged to it along with the others. -/
structure Player.ChargedInFull (before after : Player) (scope : Scope) (inputs outputs : List LineItem) :
    Prop where
  counted : ∀ item ∈ inputs, item.isCost = true → (item.counter? scope).isSome = true
  charged : ∀ c, AddsUp (before.count c)
    (amountOn scope c (ownOutputs outputs) - amountOn scope c inputs) (after.count c)

theorem Player.chargedInFull_iff {before after : Player} {scope : Scope} {inputs outputs : List LineItem}
    (h : ∀ c, AddsUp (before.count c)
      (amountOn scope c (ownOutputs outputs) - costOn scope c (paidOf scope inputs)) (after.count c))
    (hfit : before.CountsFit) (hwaived : ∀ c, costOn scope c (waivedOf scope inputs) ≤ maxInt32) :
    before.ChargedInFull after scope inputs outputs ↔ ∀ item ∈ inputs, item.isWaived scope = false := by
  constructor
  · intro hfull item hi
    by_contra hw
    have hw : item.isWaived scope = true := by simpa using hw
    obtain ⟨c, hc⟩ := Option.isSome_iff_exists.mp
      (hfull.counted item hi (Bool.and_eq_true_iff.mp hw).1)
    -- what is waived on the counter would be a number of whole turns
    have hsame := wrapInt32_eq_iff.mp ((h c (hfit c)).symm.trans (hfull.charged c (hfit c)))
    have hpos := costOn_waived_pos hi hw hc
    have hsplit : costOn scope c inputs = _ := costOn_split
    have hamount : 4294967296 ∣ costOn scope c inputs - amountOn scope c inputs := dvd_costOn_sub
    have hbound := hwaived c
    unfold maxInt32 at hbound
    omega
  · intro hnone
    have hpaid : paidOf scope inputs = inputs := List.filter_eq_self.mpr fun item hi => by simp [hnone item hi]
    refine ⟨fun item hi hcost => ?_, fun c hc => ?_⟩
    · have hw := hnone item hi
      cases hc : item.counter? scope with
      | none => simp [LineItem.isWaived, hcost, hc] at hw
      | some c => rfl
    · rw [h c hc, hpaid, wrapInt32_eq_iff]
      have hamount : 4294967296 ∣ costOn scope c inputs - amountOn scope c inputs := dvd_costOn_sub
      omega

namespace CardAction

def scope (a : CardAction) (player : Player) (target : Option CardId) : Scope where
  card := a.card
  played := player.played
  target := target

/-- What one use of the action is charged. -/
def paid (a : CardAction) (player : Player) (choice : Option Nat) (target : Option CardId) : List LineItem :=
  paidOf (a.scope player target) (a.behavior.inputsWith choice)

def given (a : CardAction) (choice : Option Nat) : List LineItem := ownOutputs (a.behavior.outputsWith choice)

end CardAction

namespace Plan

variable {rules : Rules} {player : Player} {action : CardAction} {choice : Option Nat}
  {target : Option CardId} {plan : Plan}

theorem mem_tokensOf_charges {scope : Scope} {inputs : List LineItem} {item : LineItem} {card : CardId}
    (hi : item ∈ paidOf scope inputs) (hc : item.counter? scope = some (.tokens card)) :
    (card, -item.cost) ∈ tokensOf scope (chargesOf inputs) := by
  obtain ⟨hi, hpaid⟩ := List.mem_filter.mp hi
  unfold LineItem.counter? at hc
  split at hc
  case h_3 kind hk =>
    obtain ⟨d, hd, hdc⟩ := Option.map_eq_some_iff.mp hc
    cases hdc
    have hcharge : item.charge ∈ chargesOf inputs := List.mem_filterMap.mpr ⟨item, hi, by simp [hk]⟩
    have hown : item.charge.chargesOther = false := by
      simpa [LineItem.isWaived, LineItem.isCost, hk, LineItem.counter?, hd] using hpaid
    refine List.mem_filterMap.mpr ⟨_, List.mem_filter.mpr ⟨hcharge, by simp [hown]⟩, ?_⟩
    simpa [hk, LineItem.holder?, LineItem.cost, LineItem.charge] using hd
  all_goals simp at hc

theorem ofAction_tokens (h : ofAction rules player action choice target = .ok plan) {item : LineItem}
    (hi : item ∈ action.paid player choice target) {card : CardId}
    (hc : item.counter? (action.scope player target) = some (.tokens card)) :
    0 ≤ addInt32 (player.tokens card) (-item.cost) := by
  obtain ⟨charged, _, hcharged, -, htokens, -⟩ := ofAction_ok h
  exact checkTokens_ok htokens (card, -item.cost)
    ((addInputs_gains hcharged).storage ▸ List.mem_append_right _ (mem_tokensOf_charges hi hc))

theorem ofAction_bears (h : ofAction rules player action choice target = .ok plan)
    (hp : player.CountsFit)
    (hfits : player.ChargeFits (action.scope player target) (action.paid player choice target)) :
    player.Bears rules (action.scope player target) (action.paid player choice target) := by
  obtain ⟨charged, _, hcharged, hpool, -, hproduction, -⟩ := ofAction_ok h
  have hgains : Gains (action.scope player target) _ _ _ _ charged := addInputs_gains hcharged
  refine ⟨fun r => ?_, fun r hpos => ?_, fun item hi card hc => ?_⟩
  · have hcharge : charged.resources.get r = wrapInt32 (-costOn (action.scope player target) (.pool r)
        (action.paid player choice target)) := by
      rw [hgains.fresh_resources, sumOf_resource, amountOn_charges]
      rfl
    have hleft := checkPool_ok hpool r
    have hpoolFits : FitsInt32 (player.resources.get r) := hp (.pool r)
    rw [ResourceSet.get_add, hcharge, (AddsUp.add_wrap _ _).exact hpoolFits (hfits.pool r)] at hleft
    omega
  · obtain ⟨hcost, hleft⟩ := hfits.production r
    have hcharge : charged.production.get r = -costOn (action.scope player target) (.production r)
        (action.paid player choice target) := by
      rw [← wrapInt32_of_fits hcost, hgains.fresh_production, sumOf_production, amountOn_charges]
      rfl
    have hstep := except_forM_eq_ok hproduction (r, charged.production.get r)
      (List.mem_map.mpr ⟨r, BaseResource.mem_all r, rfl⟩)
    dsimp only at hstep
    rw [hcharge, addInt32_exact hleft] at hstep
    split at hstep
    · cases hstep
    · omega
  · have hheld := ofAction_tokens h hi hc
    rw [addInt32_exact (hfits.tokens item hi card hc)] at hheld
    omega

theorem ofAction_addsTo (h : ofAction rules player action choice target = .ok plan) (c : Counter) :
    wrapInt32 (plan.addsTo c) = wrapInt32 (amountOn (action.scope player target) c (action.given choice) -
      costOn (action.scope player target) c (action.paid player choice target)) := by
  have hgains := (ofAction_gains h).1.addsTo c
  rw [ownOutputs_append, amountOn_append, amountOn_charges, Int.add_comm, ← Int.sub_eq_add_neg] at hgains
  exact hgains

end Plan

namespace Engine

variable {book : Rulebook} {rules : Rules} {p : PlayerId} {card : CardId} {index : Nat} {choice : Option Nat}
  {target : Option CardId} {w v u : World} {player : Player} {action : CardAction} {events : List Event}

theorem commitUse_count (h : commitUse rules p card index choice target w = (.ok events, v))
    (hp : w.player? p = some player) (ha : player.action? card index = some action) :
    ∃ plan after, Plan.ofAction rules player action choice target = .ok plan ∧ v.player? p = some after ∧
      ∀ c, AddsUp (player.count c) (amountOn (action.scope player target) c (action.given choice) -
        costOn (action.scope player target) c (action.paid player choice target)) (after.count c) := by
  obtain ⟨player', action', plan, board, actions, hp', ha', hplan, -, -, hreached⟩ := commitUse_reached h
  obtain rfl := Option.some.inj (hp.symm.trans hp')
  obtain rfl := Option.some.inj (ha.symm.trans (Player.findAction_ok ha').1)
  have hafter := Plan.reached_player plan rules w board ⟨player, [], w.session, w.store.decks⟩
  have hv := hreached.player?
  rw [hafter] at hv
  refine ⟨plan, _, hplan, World.player?_id hp ▸ hv, fun c => ?_⟩
  rw [← AddsUp.wrap_iff, ← Plan.ofAction_addsTo hplan, AddsUp.wrap_iff]
  cases c <;> exact plan.count_addTo player _

theorem commitUse_unplanned (hp : w.player? p = some player) (ha : player.action? card index = some action)
    (hno : ∀ plan, Plan.ofAction rules player action choice target ≠ .ok plan) :
    ∃ e v, commitUse rules p card index choice target w = (.error (.refused e true), v) ∧ w.Alike v := by
  have hread := readPlayer_alike p w
  rcases hr : readPlayer p w with ⟨stop | player', w₁⟩ <;> rw [hr] at hread
  · obtain ⟨e, s, -, rfl, rfl⟩ := onStore_eq_error.mp (show onStore _ w = _ from hr)
    exact ⟨e, _, Steps.bind_apply_error hr, hread⟩
  · obtain ⟨hp', -⟩ := readPlayer_ok hr
    obtain rfl := Option.some.inj (hp.symm.trans hp')
    cases hf : player.findAction card index with
    | error e =>
      exact ⟨e, w₁, (Steps.bind_apply_ok hr).trans (Steps.bind_apply_error (ofExcept_of_error hf)), hread⟩
    | ok action' =>
      obtain rfl := Option.some.inj (ha.symm.trans (Player.findAction_ok hf).1)
      have hfind : ofExcept (player.findAction card index) w₁ = (.ok action, w₁) :=
        ofExcept_eq_ok.mpr ⟨hf, rfl⟩
      cases hplan : Plan.ofAction rules player action choice target with
      | error e =>
        exact ⟨e, w₁, (Steps.bind_apply_ok hr).trans ((Steps.bind_apply_ok hfind).trans
          (Steps.bind_apply_error (ofExcept_of_error hplan))), hread⟩
      | ok plan => exact absurd hplan (hno plan)

/-- A use that goes through has charged every input that is not waived, so all of them exactly if none
is, unless what is waived is more than 32 bits can tell; one that the player cannot bear is refused, and
nothing is changed, unless a counter would leave 32 bits on the way. -/
theorem useAction_charges (hp : w.player? p = some player) (ha : player.action? card index = some action) :
    let scope := action.scope player target
    let inputs := action.behavior.inputsWith choice
    let paid := action.paid player choice target
    (∀ u, useAction book p card index choice target w = (.ok (), u) → ∃ events v after,
      commitUse book.rules p card index choice target w = (.ok events, v) ∧
      announce book events v = (.ok (), u) ∧ v.player? p = some after ∧
      (∀ c, AddsUp (player.count c) (amountOn scope c (action.given choice) - costOn scope c paid)
        (after.count c)) ∧
      (player.CountsFit → (∀ c, costOn scope c (waivedOf scope inputs) ≤ maxInt32) →
        (player.ChargedInFull after scope inputs (action.behavior.outputsWith choice) ↔
          ∀ item ∈ inputs, item.isWaived scope = false))) ∧
    (player.CountsFit → player.ChargeFits scope paid → ¬player.Bears book.rules scope paid → ∃ e v,
      useAction book p card index choice target w = (.error (.refused e true), v) ∧ w.Alike v) := by
  intro scope inputs paid
  refine ⟨fun u h => ?_, fun hcounts hfits hno => ?_⟩
  · obtain ⟨events, v, hv, hu⟩ := Steps.bind_eq_ok.mp h
    obtain ⟨plan, after, -, hafter, hcount⟩ := commitUse_count hv hp ha
    exact ⟨events, v, after, hv, hu, hafter, hcount, Player.chargedInFull_iff hcount⟩
  · obtain ⟨e, v, hv, halike⟩ := commitUse_unplanned hp ha fun plan hplan =>
      hno (Plan.ofAction_bears hplan hcounts hfits)
    exact ⟨e, v, Steps.bind_eq_error.mpr (.inl hv), halike⟩

/-- An action that is charged in heat, in a production and in tokens of two cards. -/
def incinerator : CardAction where
  card := "lab"
  name := "Lab"
  index := 0
  behavior := .manual
    [{ kind := .resource .heat, amount := 4 }, { kind := .production .energy, amount := 1 },
      { kind := .cardStorage .microbes, amount := 2 },
      { kind := .cardStorage .animals, amount := 1, target := some .anyCard }]
    [{ kind := .cardStorage .microbes, amount := 1 }, { kind := .terraformRating, amount := 1 }]

/-- One that names other players in one of its inputs, and any card in the other. -/
def bonfire : CardAction where
  card := "lab"
  name := "Lab"
  index := 1
  behavior := .manual
    [{ kind := .resource .heat, amount := 4, target := some .anyPlayer },
      { kind := .cardStorage .animals, amount := 1, target := some .anyCard }]
    [{ kind := .terraformRating, amount := 1 }]

/-- One that takes tokens off its own card twice. -/
def centrifuge : CardAction where
  card := "lab"
  name := "Lab"
  index := 2
  behavior := .manual
    [{ kind := .cardStorage .microbes, amount := 2 }, { kind := .cardStorage .microbes, amount := 2 }]
    [{ kind := .terraformRating, amount := 1 }]

/-- A player with this heat, and tokens on two cards. -/
def keeper (heat : Int) : Player :=
  { Player.named "player" with
    played := ["lab", "zoo"], actions := [incinerator, bonfire, centrifuge]
    resources := { heat }, production := { energy := 1 }, storage := [("lab", 3), ("zoo", 2)] }

def keeping (heat : Int) : World where
  store := { games := [("game", { id := "game" })], rosters := [("game", [keeper heat])] }
  session := { game := "game" }

theorem keeper_tokens (heat : Int) (card : CardId) : (keeper heat).tokens card ∈ [3, 2, 0] := by
  show ((Table.get? [("lab", 3), ("zoo", 2)] card).getD 0 : Int) ∈ [3, 2, 0]
  by_cases hlab : "lab" = card <;> by_cases hzoo : "zoo" = card <;> simp [Table.get?, hlab, hzoo]

theorem keeper_countsFit {heat : Int} (h : FitsInt32 heat) : (keeper heat).CountsFit := by
  have hsmall : ∀ n ∈ [1, 0], FitsInt32 n := by decide
  rintro (r | r | card)
  · cases r <;> first | exact h | exact hsmall 0 (by decide)
  · cases r <;> first | exact hsmall 1 (by decide) | exact hsmall 0 (by decide)
  · exact (by decide : ∀ n ∈ [3, 2, 0], FitsInt32 n) _ (keeper_tokens heat card)

theorem useAction_charges_incinerator :
    let book : Rulebook := { catalog := ⟨[]⟩, rules := {}, depth := 8 }
    let used := useAction book "player" "lab" 0 none (some "zoo") (keeping 4)
    (keeping 4).player? "player" = some (keeper 4) ∧ (keeper 4).action? "lab" 0 = some incinerator ∧
      used.1 = .ok () ∧
      (∃ events v after,
        commitUse book.rules "player" "lab" 0 none (some "zoo") (keeping 4) = (.ok events, v) ∧
        announce book events v = (.ok (), used.2) ∧ v.player? "player" = some after ∧
        (keeper 4).ChargedInFull after (incinerator.scope (keeper 4) (some "zoo"))
          incinerator.behavior.inputs incinerator.behavior.outputs ∧
        after.tokens "lab" = 2 ∧ after.tokens "zoo" = 1) ∧
      ∃ e v, useAction book "player" "lab" 0 none (some "zoo") (keeping 3) = (.error (.refused e true), v) ∧
        (keeping 3).Alike v := by
  intro book used
  have hp (heat : Int) : (keeping heat).player? "player" = some (keeper heat) := rfl
  have ha (heat : Int) : (keeper heat).action? "lab" 0 = some incinerator := rfl
  have hused : used.1 = .ok () := by decide +kernel
  obtain ⟨events, v, after, hv, hu, hafter, hcount, hfull⟩ :=
    (@useAction_charges book "player" "lab" 0 none (some "zoo") _ _ _ (hp 4) (ha 4)).1 used.2
      (Prod.fst_eq_iff.mp hused)
  have hwaived : ∀ c, costOn (incinerator.scope (keeper 4) (some "zoo")) c
      (waivedOf (incinerator.scope (keeper 4) (some "zoo")) incinerator.behavior.inputs) ≤ maxInt32 :=
    fun c => (by decide : (0 : Int) ≤ maxInt32)
  have hfits : (keeper 3).ChargeFits (incinerator.scope (keeper 3) (some "zoo"))
      (incinerator.paid (keeper 3) none (some "zoo")) := {
    pool := fun r => by cases r <;> decide
    production := fun r => by cases r <;> decide
    tokens := fun item hi card _ =>
      (by decide : ∀ item ∈ incinerator.paid (keeper 3) none (some "zoo"), ∀ n ∈ [3, 2, 0],
        FitsInt32 (n - item.cost)) item hi _ (keeper_tokens 3 card) }
  have hrefused := (@useAction_charges book "player" "lab" 0 none (some "zoo") _ _ _ (hp 3) (ha 3)).2
    (keeper_countsFit (by decide)) hfits fun hb => absurd (hb.pool .heat) (by decide)
  have hlab := (hcount (.tokens "lab")).exact (keeper_countsFit (by decide) _) (by decide)
  have hzoo := (hcount (.tokens "zoo")).exact (keeper_countsFit (by decide) _) (by decide)
  exact ⟨hp 4, ha 4, hused, ⟨events, v, after, hv, hu, hafter,
    (hfull (keeper_countsFit (by decide)) hwaived).mpr (by decide),
    hlab.trans (by decide), hzoo.trans (by decide)⟩, hrefused⟩

/-- Heat that other players are named for is not charged, nor is a token while no card is chosen. -/
theorem useAction_free :
    let book : Rulebook := { catalog := ⟨[]⟩, rules := {}, depth := 8 }
    let used := useAction book "player" "lab" 1 none none (keeping 4)
    used.1 = .ok () ∧
      (used.2.player? "player").map (fun x => (x.rating, x.resources.heat, x.storage)) =
        some (21, 4, (keeper 4).storage) ∧
      ∀ after, used.2.player? "player" = some after →
        ¬(keeper 4).ChargedInFull after (bonfire.scope (keeper 4) none) bonfire.behavior.inputs
          bonfire.behavior.outputs := by
  intro book used
  have hrecord : (used.2.player? "player").map (fun x => (x.rating, x.resources.heat, x.storage)) =
      some (21, 4, (keeper 4).storage) := by decide +kernel
  refine ⟨by decide +kernel, hrecord, fun after hafter hfull => ?_⟩
  rw [hafter, Option.map_some, Option.some.injEq] at hrecord
  have hheat : after.resources.heat = 4 := congrArg (·.2.1) hrecord
  have hcharged : after.resources.heat = 0 := hfull.charged (.pool .heat) (by decide)
  omega

/-- On cards that no output takes tokens off, and at most one input each, no counter falls below zero;
where several of them fall on one card, only each by itself is held against it. All of this is as long
as the card comes to have a number of tokens that 32 bits can tell. -/
theorem useAction_tokens (hp : w.player? p = some player) (ha : player.action? card index = some action)
    (hheld : ∀ c, 0 ≤ player.tokens c) (hfits : ∀ c, FitsInt32 (player.tokens c))
    (h : useAction book p card index choice target w = (.ok (), u)) :
    let scope := action.scope player target
    let paid := action.paid player choice target
    let given := action.given choice
    ∃ events v after, commitUse book.rules p card index choice target w = (.ok events, v) ∧
      announce book events v = (.ok (), u) ∧ v.player? p = some after ∧
      (∀ item ∈ paid, ∀ c, item.counter? scope = some (.tokens c) → item.cost ≤ player.tokens c) ∧
      ∀ c, FitsInt32 (player.tokens c + (amountOn scope (.tokens c) given - costOn scope (.tokens c) paid)) →
        (0 ≤ after.tokens c ↔
          costOn scope (.tokens c) paid ≤ player.tokens c + amountOn scope (.tokens c) given) ∧
        ((∀ item ∈ given, item.counter? scope = some (.tokens c) → 0 ≤ item.amount) →
          (paid.filter (·.counter? scope == some (.tokens c))).length ≤ 1 → 0 ≤ after.tokens c) := by
  intro scope paid given
  obtain ⟨events, v, hv, hu⟩ := Steps.bind_eq_ok.mp h
  obtain ⟨plan, after, hplan, hafter, hcount⟩ := commitUse_count hv hp ha
  have hbears : ∀ item ∈ paid, ∀ c, item.counter? scope = some (.tokens c) →
      item.cost ≤ player.tokens c := fun item hi c hc =>
    LineItem.cost_le_of_held (hheld c) (hfits c) (Plan.ofAction_tokens hplan hi hc)
  refine ⟨events, v, after, hv, hu, hafter, hbears, fun c hlast => ?_⟩
  have htokens : after.tokens c =
      player.tokens c + (amountOn scope (.tokens c) given - costOn scope (.tokens c) paid) :=
    (hcount (.tokens c)).exact (hfits c) hlast
  refine ⟨by omega, fun hgiven hpaid => ?_⟩
  have hgained : 0 ≤ amountOn scope (.tokens c) given := amountOn_nonneg hgiven
  have htaken : costOn scope (.tokens c) paid ≤ player.tokens c :=
    costOn_le_of_single (hheld c) hpaid fun item hi => hbears item hi c
  omega

theorem useAction_tokens_incinerator :
    let book : Rulebook := { catalog := ⟨[]⟩, rules := {}, depth := 8 }
    let used := useAction book "player" "lab" 0 none (some "zoo") (keeping 4)
    (keeping 4).player? "player" = some (keeper 4) ∧ (keeper 4).action? "lab" 0 = some incinerator ∧
      (∀ c, 0 ≤ (keeper 4).tokens c) ∧ used.1 = .ok () ∧ ∃ events v after,
        commitUse book.rules "player" "lab" 0 none (some "zoo") (keeping 4) = (.ok events, v) ∧
        announce book events v = (.ok (), used.2) ∧ v.player? "player" = some after ∧
        0 ≤ after.tokens "lab" ∧ 0 ≤ after.tokens "zoo" := by
  intro book used
  have hp : (keeping 4).player? "player" = some (keeper 4) := rfl
  have ha : (keeper 4).action? "lab" 0 = some incinerator := rfl
  have hheld : ∀ c, 0 ≤ (keeper 4).tokens c := fun c =>
    (by decide : ∀ n ∈ [3, 2, 0], (0 : Int) ≤ n) _ (keeper_tokens 4 c)
  have hused : used.1 = .ok () := by decide +kernel
  obtain ⟨events, v, after, hv, hu, hafter, -, hkept⟩ :=
    @useAction_tokens book "player" "lab" 0 none (some "zoo") _ used.2 _ _ hp ha hheld
      (fun c => keeper_countsFit (by decide) (.tokens c)) (Prod.fst_eq_iff.mp hused)
  exact ⟨hp, ha, hheld, hused, events, v, after, hv, hu, hafter,
    (hkept "lab" (by decide)).2 (by decide) (by decide),
    (hkept "zoo" (by decide)).2 (by decide) (by decide)⟩

/-- Two inputs that take two tokens each off a card that has three. -/
theorem useAction_overdraws :
    let book : Rulebook := { catalog := ⟨[]⟩, rules := {}, depth := 8 }
    let used := useAction book "player" "lab" 2 none none (keeping 4)
    (∀ t ∈ (keeper 4).storage, 0 ≤ t.2) ∧ used.1 = .ok () ∧
      (used.2.player? "player").map (·.tokens "lab") = some (-1) :=
  ⟨by decide, by decide +kernel, by decide +kernel⟩

end Engine

end MarsRules
