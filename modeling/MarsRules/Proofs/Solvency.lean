import MarsRules.Proofs.Payments
import MarsRules.Proofs.Played
import MarsRules.Proofs.Turns

/-! A player who is solvent is solvent again once a play or the use of an action is committed: costs
are checked against the pool as it is after the payment, and what is checked bounds what is written. -/

namespace MarsRules

/-- No resource below zero and no production below its floor. -/
structure Player.Solvent (rules : Rules) (x : Player) : Prop where
  resources : ∀ c, 0 ≤ x.resources.get c
  production : ∀ c, rules.productionFloor c ≤ x.production.get c

theorem sumOf_cons (kind : ResourceKind) (item : LineItem) (rest : List LineItem) :
    sumOf kind (item :: rest) =
      (if item.kind = kind ∧ item.chargesOther = false then item.amount else 0) + sumOf kind rest := by
  unfold sumOf amountOf ownOutputs
  cases hc : item.chargesOther <;> by_cases hk : item.kind = kind <;> simp [hc, hk, total]

/-- The amounts of one kind that the player gets or bears, in order. -/
def amountsOf (kind : ResourceKind) (items : List LineItem) : List Int :=
  ((ownOutputs items).filter (·.kind == kind)).map (·.amount)

theorem total_amountsOf (kind : ResourceKind) (items : List LineItem) :
    total (amountsOf kind items) = sumOf kind items := rfl

theorem amountsOf_cons (kind : ResourceKind) (item : LineItem) (rest : List LineItem) :
    amountsOf kind (item :: rest) =
      if item.kind = kind ∧ item.chargesOther = false then item.amount :: amountsOf kind rest
      else amountsOf kind rest := by
  unfold amountsOf ownOutputs
  cases hc : item.chargesOther <;> by_cases hk : item.kind = kind <;> simp [hc, hk]

/-- What an output takes from the player's own pool of one resource. -/
def LineItem.reduction (item : LineItem) (c : BaseResource) : Int :=
  if item.kind = .resource c ∧ item.chargesOther = false then min 0 item.amount else 0

/-- What a play is charged in one resource: the inputs, and the reductions among the outputs. What
raises the pool is not counted on. -/
def Card.toll (card : Card) (choice : Option Nat) (c : BaseResource) : Int :=
  total ((card.gains choice).map (·.reduction c)) - amountOf (.resource c) (card.spends choice)

/-- A play during which no counter leaves 32 bits: not the pool once it is charged, nor once all is
given, nor a production on the way through the outputs. -/
structure Card.PlayFits (card : Card) (player : Player) (r : PlayRequest) : Prop where
  charged : ∀ c, FitsInt32 (player.resources.get c - r.payment.taken c + card.toll r.choice c)
  given : ∀ c, FitsInt32 (player.resources.get c - r.payment.taken c -
    amountOf (.resource c) (card.spends r.choice) + sumOf (.resource c) (card.gains r.choice))
  production : ∀ c,
    SumsFit (player.production.get c) (amountsOf (.production c) (card.gains r.choice))

/-- A use during which no production leaves 32 bits: neither what the inputs come to, nor the
production once they are charged, nor on the way through the outputs. -/
structure CardAction.UseFits (action : CardAction) (player : Player) (choice : Option Nat) : Prop where
  charges : ∀ c, FitsInt32 (sumOf (.production c) (chargesOf (action.behavior.inputsWith choice)))
  charged : ∀ c, FitsInt32 (player.production.get c +
    sumOf (.production c) (chargesOf (action.behavior.inputsWith choice)))
  given : ∀ c, SumsFit (player.production.get c +
      sumOf (.production c) (chargesOf (action.behavior.inputsWith choice)))
    (amountsOf (.production c) (action.behavior.outputsWith choice))

section Checks

variable {rules : Rules} {player : Player} {card : Card} {choice : Option Nat} {c : BaseResource}

theorem ResourceSet.get_addOne_of_fits {s : ResourceSet} {q : BaseResource} {n : Int}
    (h : FitsInt32 (s.get q + n)) (c : BaseResource) :
    (s.add q n).get c = s.get c + if q = c then n else 0 := by
  rw [ResourceSet.get_addOne]
  by_cases hc : q = c
  · rw [if_pos hc, ← hc, addInt32_exact h]
  · simp [hc]

theorem sumsFit_production {production : ResourceSet} {item : LineItem} {rest : List LineItem}
    {q : BaseResource} (hk : item.kind = .production q) (ho : item.chargesOther = false)
    (h : ∀ c, SumsFit (production.get c) (amountsOf (.production c) (item :: rest))) :
    FitsInt32 (production.get q + item.amount) ∧
      ∀ c, SumsFit ((production.add q item.amount).get c) (amountsOf (.production c) rest) := by
  have hq := h q
  rw [amountsOf_cons, if_pos ⟨hk, ho⟩, sumsFit_cons] at hq
  refine ⟨hq.1, fun c => ?_⟩
  rw [ResourceSet.get_addOne_of_fits hq.1]
  by_cases hc : q = c
  · rw [if_pos hc, ← hc]
    exact hq.2
  · have hother := h c
    rw [amountsOf_cons, if_neg (by simp [hk, hc])] at hother
    rwa [if_neg hc, Int.add_zero]

theorem checkProductionFloors_ok {production : ResourceSet} {items : List LineItem}
    (h : checkProductionFloors rules production items = .ok ())
    (hp : ∀ c, rules.productionFloor c ≤ production.get c)
    (hfits : ∀ c, SumsFit (production.get c) (amountsOf (.production c) items)) (c : BaseResource) :
    rules.productionFloor c ≤ production.get c + sumOf (.production c) items := by
  induction items generalizing production with
  | nil => simpa [sumOf, amountOf, ownOutputs, total] using hp c
  | cons item rest ih =>
    unfold checkProductionFloors at h
    rw [sumOf_cons]
    split at h
    · next q hk ho =>
      dsimp only at h
      split at h
      · cases h
      · next hfloor =>
        obtain ⟨hone, hrest⟩ := sumsFit_production hk ho hfits
        have hget := ResourceSet.get_addOne_of_fits hone
        have hfloors (c : BaseResource) :
            rules.productionFloor c ≤ (production.add q item.amount).get c := by
          have := hp c
          by_cases hc : q = c
          · subst hc
            rw [hget, if_pos rfl] at hfloor ⊢
            omega
          · simpa [hget, hc] using this
        have := ih h hfloors hrest
        rw [hget] at this
        by_cases hc : q = c <;> simp [hk, ho, hc] at this ⊢ <;> omega
    · next hno =>
      have hskip (c : BaseResource) : ¬(item.kind = .production c ∧ item.chargesOther = false) := by
        rintro ⟨hk, ho⟩
        exact hno c hk ho
      rw [if_neg (hskip c), Int.zero_add]
      refine ih h hp fun c => ?_
      have := hfits c
      rwa [amountsOf_cons, if_neg (hskip c)] at this

theorem Card.get_immediateCosts (card : Card) (choice : Option Nat) (c : BaseResource) :
    (card.immediateCosts choice).get c = wrapInt32 (card.toll choice c) := by
  have hsum : AddsUp ((card.immediateInputs choice).get c)
      (total ((card.gains choice).map (·.reduction c))) ((card.immediateCosts choice).get c) := by
    refine get_foldl (fun pool item => ?_) _ _
    have hmin : min 0 item.amount = if item.amount < 0 then item.amount else 0 := by
      split <;> omega
    rw [LineItem.reduction, hmin]
    cases hk : item.kind
    case resource q =>
      by_cases hq : q = c <;> by_cases hneg : item.amount < 0 <;> cases ho : item.chargesOther <;>
        simp [hq, hneg, ResourceSet.get_addOne]
    all_goals simp
  rw [Card.get_immediateInputs] at hsum
  rw [toll, Int.sub_eq_add_neg, Int.add_comm]
  exact hsum.of_wrap

theorem Card.toll_le (card : Card) (choice : Option Nat) (c : BaseResource) :
    card.toll choice c ≤
      sumOf (.resource c) (card.gains choice) - amountOf (.resource c) (card.spends choice) := by
  have hle : ∀ items : List LineItem,
      total (items.map (·.reduction c)) ≤ sumOf (.resource c) items := by
    intro items
    induction items with
    | nil => exact Int.le_refl _
    | cons item rest ih =>
      rw [sumOf_cons, List.map_cons, total, LineItem.reduction]
      split <;> omega
  have := hle (card.gains choice)
  unfold toll
  omega

theorem Card.checkCosts_ok {pool : ResourceSet} (h : card.checkCosts choice pool = .ok ())
    (c : BaseResource) : 0 ≤ (pool + card.immediateCosts choice).get c := by
  unfold Card.checkCosts at h
  split at h
  · cases h
  · next hnone => exact (ResourceSet.shortfall?_eq_none ..).mp hnone c

theorem except_forM_eq_ok {ε α : Type} {f : α → Except ε Unit} {l : List α} (h : l.forM f = .ok ()) :
    ∀ a ∈ l, f a = .ok () := by
  induction l with
  | nil => simp
  | cons a rest ih =>
    obtain ⟨_, ha, hrest⟩ := except_bind_eq_ok.mp h
    exact List.forall_mem_cons.mpr ⟨ha, ih hrest⟩

theorem except_forM_cons {ε α : Type} (f : α → Except ε Unit) (a : α) (l : List α) :
    (a :: l).forM f = match f a with
      | .ok _ => l.forM f
      | .error e => .error e := by
  show (f a >>= fun _ => l.forM f) = _
  cases f a <;> rfl

theorem except_forM_eq_error {ε α : Type} {f : α → Except ε Unit} {l : List α} {e : ε} :
    l.forM f = .error e ↔
      ∃ before a after, l = before ++ a :: after ∧ (∀ b ∈ before, f b = .ok ()) ∧ f a = .error e := by
  induction l with
  | nil => simp [pure, Except.pure]
  | cons a rest ih =>
    rw [except_forM_cons]
    constructor
    · intro h
      cases ha : f a with
      | error e' => exact ⟨[], a, rest, rfl, by simp, ha.trans (by simpa [ha] using h)⟩
      | ok u =>
        obtain ⟨before, b, after, rfl, hbefore, hb⟩ := ih.mp (by simpa [ha] using h)
        exact ⟨a :: before, b, after, rfl, List.forall_mem_cons.mpr ⟨ha, hbefore⟩, hb⟩
    · rintro ⟨before, b, after, hl, hbefore, hb⟩
      cases before with
      | nil =>
        obtain ⟨rfl, rfl⟩ := List.cons.inj hl
        rw [hb]
      | cons c before =>
        obtain ⟨rfl, rfl⟩ := List.cons.inj hl
        obtain ⟨hc, hbefore⟩ := List.forall_mem_cons.mp hbefore
        rw [hc]
        exact ih.mpr ⟨before, b, after, rfl, hbefore, hb⟩

theorem except_forM_eq_ok_iff {ε α : Type} {f : α → Except ε Unit} {l : List α} :
    l.forM f = .ok () ↔ ∀ a ∈ l, f a = .ok () := by
  refine ⟨except_forM_eq_ok, fun h => ?_⟩
  cases hl : l.forM f with
  | ok u => rfl
  | error e =>
    obtain ⟨before, a, after, rfl, -, ha⟩ := except_forM_eq_error.mp hl
    cases (h a (by simp)).symm.trans ha

namespace Plan

variable {plan : Plan} {action : CardAction} {target : Option CardId}

theorem checkPool_ok (h : plan.checkPool player = .ok ()) (c : BaseResource) :
    0 ≤ (player.resources + plan.resources).get c := by
  unfold checkPool at h
  split at h
  · cases h
  · next hnone => exact (ResourceSet.shortfall?_eq_none ..).mp hnone c

theorem checkProduction_ok (h : plan.checkProduction rules player = .ok ())
    (hp : rules.productionFloor c ≤ player.production.get c)
    (hfits : FitsInt32 (player.production.get c + plan.production.get c)) :
    rules.productionFloor c ≤ player.production.get c + plan.production.get c := by
  have hstep := except_forM_eq_ok h (c, plan.production.get c)
    (List.mem_map.mpr ⟨c, BaseResource.mem_all c, rfl⟩)
  dsimp only at hstep
  rw [addInt32_exact hfits] at hstep
  split at hstep
  · cases hstep
  · omega

theorem ofAction_solvent (h : ofAction rules player action choice target = .ok plan)
    (hs : player.Solvent rules) (hp : ∀ c, FitsInt32 (player.production.get c))
    (hfits : action.UseFits player choice) (c : BaseResource) :
    0 ≤ (player.resources + plan.resources).get c ∧
      rules.productionFloor c ≤ (player.production + plan.production).get c := by
  have hgains := (ofAction_gains h).1
  obtain ⟨charged, all, hinputs, -, -, hcharged, hfloors, -, hpool, rfl⟩ := ofAction_ok h
  refine ⟨checkPool_ok hpool c, ?_⟩
  have hcharges (c : BaseResource) : charged.production.get c =
      sumOf (.production c) (chargesOf (action.behavior.inputsWith choice)) :=
    ((addInputs_gains hinputs).fresh_production c).trans (wrapInt32_of_fits (hfits.charges c))
  have hlevel (c : BaseResource) : (player.production + charged.production).get c =
      player.production.get c + sumOf (.production c) (chargesOf (action.behavior.inputsWith choice)) := by
    rw [ResourceSet.get_add, hcharges, addInt32_exact (hfits.charged c)]
  have hkept := checkProductionFloors_ok hfloors
    (fun c => by
      rw [hlevel, ← hcharges]
      exact checkProduction_ok hcharged (hs.production c) (hcharges c ▸ hfits.charged c))
    (fun c => by rw [hlevel]; exact hfits.given c) c
  rw [hlevel] at hkept
  -- the last sum on the way through the outputs is what is written
  have hlast := (sumsFit_iff (hfits.charged c)).mp (hfits.given c) _ (List.prefix_refl _)
  rw [total_amountsOf, Int.add_assoc, ← sumOf_append] at hlast
  rw [Int.add_assoc, ← sumOf_append] at hkept
  have hwritten := ((hgains.addTo player).2.1 c).exact (hp c) hlast
  exact hwritten ▸ hkept

end Plan

end Checks

theorem Played.player? {rules : Rules} {w v : World} {game : Game} {player after : Player} {card : Card}
    {r : PlayRequest} {parameters : Parameters}
    (h : Played rules w game player card r parameters after v) {p : PlayerId}
    (hp : w.player? p = some player) : v.player? p = some after := by
  obtain rfl := World.player?_id hp
  have hg : v.game = w.game := (congrArg Session.game h.session).trans (Session.listen_game ..)
  show v.records.player? v.game _ = _
  rw [hg, h.records, Records.player?_changePlayer fun _ _ => h.record.id, Records.player?_changeGame,
    show w.records.player? w.game player.id = some player from hp]
  rfl

namespace Engine

variable {book : Rulebook} {p : PlayerId} {w v u : World} {player : Player} {events : List Event}

theorem get_paid {card : Card} {r : PlayRequest} {paid : ResourceSet} {game : Game}
    (h : card.checkPlay book game player r = .ok paid)
    (hfits : ∀ c, FitsInt32 (player.resources.get c)) (c : BaseResource) :
    paid.get c = player.resources.get c - r.payment.taken c := by
  have hplayable := Card.checkPlay_ok h
  obtain ⟨left, hleft, hrest⟩ := (Payment.Accepted.of_check hfits hplayable.payment).exists_rest hfits
  obtain rfl := Except.ok.inj (hleft.symm.trans hplayable.taken)
  exact (hrest c).1

theorem commitPlay_solvent {r : PlayRequest} (h : commitPlay book p r w = (.ok events, v))
    (hp : w.player? p = some player) (hs : player.Solvent book.rules) (hfits : player.Fits)
    (hplay : ∀ card, book.catalog.find? r.card = some card → card.PlayFits player r) :
    ∃ after, v.player? p = some after ∧ after.Solvent book.rules := by
  obtain ⟨_, player', card, paid, parameters, after, _, hcheck, -, hp', hcard, hplayed⟩ :=
    commitPlay_checked h
  obtain rfl := Option.some.inj (hp.symm.trans hp')
  obtain ⟨game, hcheck⟩ := checkPlay_checked hcheck
  have hplayable := Card.checkPlay_ok hcheck
  obtain ⟨hcharged, hgiven, hproduction⟩ := hplay card hcard
  refine ⟨after, hplayed.player? hp, fun c => ?_, fun c => ?_⟩
  · have hleft := Card.checkCosts_ok hplayable.costs c
    have hcounted := card.toll_le r.choice c
    have hsum : player.resources.get c + (-r.payment.taken c -
        amountOf (.resource c) (card.spends r.choice) + sumOf (.resource c) (card.gains r.choice)) =
      player.resources.get c - r.payment.taken c - amountOf (.resource c) (card.spends r.choice) +
        sumOf (.resource c) (card.gains r.choice) := by omega
    have hpaid := get_paid hcheck hfits.resources c
    have hfit := (Payment.get_takeFrom hplayable.taken c).fits (hfits.resources c)
    rw [ResourceSet.get_add, Card.get_immediateCosts, (AddsUp.add_wrap _ _).exact hfit
      (hpaid ▸ hcharged c), hpaid] at hleft
    rw [(hplayed.record.resources c).exact (hfits.resources c) (hsum ▸ hgiven c)]
    omega
  · have hlast := (sumsFit_iff (hfits.production c)).mp (hproduction c) _ (List.prefix_refl _)
    rw [(hplayed.record.production c).exact (hfits.production c) hlast]
    exact checkProductionFloors_ok hplayable.floors hs.production hproduction c

theorem commitUse_reached {card : CardId} {index : Nat} {choice : Option Nat} {target : Option CardId}
    {rules : Rules} (h : commitUse rules p card index choice target w = (.ok events, v)) :
    ∃ player action plan board actions, w.player? p = some player ∧
      player.findAction card index = .ok action ∧
      Plan.ofAction rules player action choice target = .ok plan ∧
      Plan.useUp (player.actions ++ plan.actions) plan.used = .ok actions ∧ w.PlaysOn board ∧
      let x := plan.reached rules w board ⟨player, [], w.session, w.store.decks⟩
      w.Reached { x with player := { x.player with actions } } v := by
  obtain ⟨player, w₁, hplayer, h⟩ := Steps.bind_eq_ok.mp h
  obtain ⟨action, w₂, haction, h⟩ := Steps.bind_eq_ok.mp h
  obtain ⟨plan, w₃, hplan, h⟩ := Steps.bind_eq_ok.mp h
  obtain ⟨hp, ha⟩ := readPlayer_ok hplayer
  obtain ⟨hfound, rfl⟩ := ofExcept_eq_ok.mp haction
  obtain ⟨hof, rfl⟩ := ofExcept_eq_ok.mp hplan
  obtain ⟨changes, w₄, hwrite, h⟩ := Steps.bind_eq_ok.mp h
  obtain ⟨noted, hwrite⟩ := transact_ok hwrite
  obtain ⟨g, w₅, hgame, h⟩ := Steps.bind_eq_ok.mp h
  cases hgame
  obtain ⟨-, rfl⟩ := Steps.pure_eq_ok.mp h
  obtain ⟨board, hb⟩ := w.exists_playsOn
  obtain rfl := World.player?_id hp
  obtain ⟨-, -, actions, hused, hreached⟩ := Plan.write_reached_using hwrite
    ((World.Reached.start hp).alike ha) (Plan.ofAction_gains hof).1.player rfl hb
  exact ⟨player, action, plan, board, actions, hp, hfound, hof, hused, hb, hreached⟩

theorem commitUse_solvent {card : CardId} {index : Nat} {choice : Option Nat} {target : Option CardId}
    {rules : Rules} (h : commitUse rules p card index choice target w = (.ok events, v))
    (hp : w.player? p = some player) (hs : player.Solvent rules) (hfits : player.Fits)
    (huse : ∀ action, player.findAction card index = .ok action → action.UseFits player choice) :
    ∃ after, v.player? p = some after ∧ after.Solvent rules := by
  obtain ⟨player', action, plan, board, actions, hp', hfound, hplan, -, -, hreached⟩ :=
    commitUse_reached h
  obtain rfl := Option.some.inj (hp.symm.trans hp')
  have hafter := Plan.reached_player plan rules w board ⟨player, [], w.session, w.store.decks⟩
  have hv := hreached.player?
  rw [hafter] at hv
  have hsolvent := Plan.ofAction_solvent hplan hs hfits.production (huse action hfound)
  exact ⟨_, World.player?_id hp ▸ hv, fun c => (hsolvent c).1, fun c => (hsolvent c).2⟩

/-- A card that costs a production when it is played. -/
def mortgage : Card where
  id := "mortgage"
  name := "Mortgage"
  type := .automated
  cost := 3
  behaviors := [.immediate [
    { kind := .production .credits, amount := -2 },
    { kind := .resource .credits, amount := 7 }]]

def furnace : CardAction where
  card := "furnace"
  name := "Furnace"
  index := 0
  behavior := .manual [{ kind := .resource .heat, amount := 4 }] [{ kind := .production .energy, amount := 1 }]

def indebted : Player :=
  { Player.named "player" with
    hand := ["mortgage"], actions := [furnace]
    resources := { credits := 3, heat := 4 }, production := { credits := -3 } }

/-- A player who can afford exactly one card and one action. -/
def lending : World where
  store := { games := [("game", { id := "game" })], rosters := [("game", [indebted])] }
  session := { game := "game" }

end Engine

end MarsRules
