import Mathlib.Algebra.GroupWithZero.Nat
import MarsRules.Session.Use

/-! What a plan gathers from a list of outputs: sums as far as 32 bits keep them, and lists in their
order. A reduction that others bear counts for nothing. -/

namespace MarsRules

/-- The outputs that the player gets or bears. -/
def ownOutputs (items : List LineItem) : List LineItem := items.filter (!·.chargesOther)

/-- The sum of the amounts of one kind. -/
def amountOf (kind : ResourceKind) (items : List LineItem) : Int :=
  total ((items.filter (·.kind == kind)).map (·.amount))

/-- What the player gets or bears of one kind. -/
def sumOf (kind : ResourceKind) (items : List LineItem) : Int := amountOf kind (ownOutputs items)

/-- The card that tokens go to: those for any card to the chosen one, if there is one. -/
def LineItem.holder? (item : LineItem) (scope : Scope) : Option CardId :=
  if item.target = some .anyCard then scope.target.filter (· ≠ "") else some scope.card

/-- The tokens that go to cards. -/
def tokensOf (scope : Scope) (items : List LineItem) : List (CardId × Int) :=
  (ownOutputs items).filterMap fun item => match item.kind with
    | .cardStorage _ => (item.holder? scope).map (·, item.amount)
    | _ => none

def tilesOf (items : List LineItem) : List TileKind :=
  (ownOutputs items).flatMap fun item => match item.kind with
    | .tilePlacement t => List.replicate item.amount.toNat t
    | _ => []

/-- The steps of the global parameters, item by item. -/
def stepsOf (items : List LineItem) : List (GlobalParameter × Int) :=
  (ownOutputs items).filterMap fun item => match item.kind with
    | .globalParameter q => some (q, item.amount)
    | _ => none

/-- The number of cards to draw. -/
def drawsOf (items : List LineItem) : Nat :=
  (((ownOutputs items).filter (·.kind == .cardDraw)).map (·.amount.toNat)).sum

/-- What inputs take, as outputs: only pools, productions and tokens are charged. -/
def chargesOf (items : List LineItem) : List LineItem :=
  items.filterMap fun item => match item.kind with
    | .resource _ | .production _ | .cardStorage _ => some item.charge
    | _ => none

namespace Card

variable (c : Card) (choice : Option Nat)

/-- What the immediate behaviors give, with the choice that was made. -/
def gains : List LineItem := (c.shaped .immediate).flatMap (·.outputsWith choice)

def spends : List LineItem := (c.shaped .immediate).flatMap (·.inputsWith choice)

/-- An action for each manual behavior. -/
def actions : List CardAction :=
  (c.behaviors.zipIdx.filter (·.1.shape == .manual)).map fun (behavior, index) =>
    { card := c.id, name := c.name, index, behavior }

/-- An effect for each passive behavior, and for each immediate one with standing modifiers. -/
def effects : List CardEffect :=
  (c.behaviors.zipIdx.filter fun (b, _) =>
      b.shape == .passive || b.shape == .immediate && !b.modifiers.isEmpty).map
    fun (behavior, index) => { card := c.id, name := c.name, index, behavior }

end Card

section Append

variable (items items' : List LineItem)

theorem total_append (ns ms : List Int) : total (ns ++ ms) = total ns + total ms := by
  induction ns with
  | nil => simp [total]
  | cons n rest ih => simp only [List.cons_append, total, ih, Int.add_assoc]

theorem total_nonneg {ns : List Int} (h : ∀ n ∈ ns, 0 ≤ n) : 0 ≤ total ns := by
  induction ns with
  | nil => exact Int.le_refl 0
  | cons n rest ih =>
    obtain ⟨hn, hrest⟩ := List.forall_mem_cons.mp h
    exact Int.add_nonneg hn (ih hrest)

@[simp] theorem ownOutputs_append :
    ownOutputs (items ++ items') = ownOutputs items ++ ownOutputs items' := List.filter_append ..

theorem sumOf_append (kind : ResourceKind) :
    sumOf kind (items ++ items') = sumOf kind items + sumOf kind items' := by
  simp [sumOf, amountOf, total_append]

theorem tokensOf_append (scope : Scope) :
    tokensOf scope (items ++ items') = tokensOf scope items ++ tokensOf scope items' := by
  simp [tokensOf]

theorem tilesOf_append : tilesOf (items ++ items') = tilesOf items ++ tilesOf items' := by
  simp [tilesOf]

theorem stepsOf_append : stepsOf (items ++ items') = stepsOf items ++ stepsOf items' := by
  simp [stepsOf]

theorem stepsOf_filter {p : LineItem → Bool}
    (hp : ∀ item q, item.kind = .globalParameter q → p item = true) :
    stepsOf (items.filter p) = stepsOf items := by
  induction items with
  | nil => rfl
  | cons item rest ih =>
    rw [show item :: rest = [item] ++ rest from rfl, List.filter_append, stepsOf_append,
      stepsOf_append, ih]
    cases h : p item with
    | true => simp [h]
    | false =>
      have : stepsOf [item] = [] := by
        refine List.filterMap_eq_nil_iff.mpr fun i hi => ?_
        obtain rfl : i = item := by simpa using (List.mem_filter.mp hi).1
        cases hk : i.kind <;> try rfl
        case globalParameter q => simp [hp i q hk] at h
      rw [this, show [item].filter p = [] by simp [h]]
      rfl

theorem drawsOf_append : drawsOf (items ++ items') = drawsOf items + drawsOf items' := by
  simp [drawsOf]

end Append

theorem except_bind_eq_ok {ε α β : Type} {x : Except ε α} {f : α → Except ε β} {b : β} :
    x >>= f = .ok b ↔ ∃ a, x = .ok a ∧ f a = .ok b := by
  cases x <;> simp [bind, Except.bind]

theorem saturateNat32_of_le {n : Nat} (h : n ≤ maxNat32) : saturateNat32 n = n :=
  Nat.min_eq_right h

theorem saturateNat32_add (n m k : Nat) :
    saturateNat32 (saturateNat32 (n + m) + k) = saturateNat32 (n + (m + k)) := by
  simp only [saturateNat32]; omega

namespace Plan

def addAllSteps (steps : List (GlobalParameter × Int)) (l : List (GlobalParameter × Int)) :
    List (GlobalParameter × Int) := steps.foldl (fun l step => addSteps step.1 step.2 l) l

/-- The second plan holds what the first holds and these outputs, actions and effects. -/
structure Gains (scope : Scope) (p : Plan) (items : List LineItem) (actions : List CardAction)
    (effects : List CardEffect) (p' : Plan) : Prop where
  player : p'.player = p.player
  source : p'.source = p.source
  used : p'.used = p.used
  points : p'.points = p.points
  production : ∀ r, AddsUp (p.production.get r) (sumOf (.production r) items) (p'.production.get r)
  resources : ∀ r, AddsUp (p.resources.get r) (sumOf (.resource r) items) (p'.resources.get r)
  rating : AddsUp p.rating (sumOf .terraformRating items) p'.rating
  storage : p'.storage = p.storage ++ tokensOf scope items
  tiles : p'.tiles = p.tiles ++ tilesOf items
  parameters : p'.parameters = addAllSteps (stepsOf items) p.parameters
  draw : p.draw ≤ maxNat32 → p'.draw = saturateNat32 (p.draw + drawsOf items)
  actions : p'.actions = p.actions ++ actions
  effects : p'.effects = p.effects ++ effects

namespace Gains

variable {scope : Scope} {p p' q : Plan} {items items' : List LineItem}
  {actions actions' : List CardAction} {effects effects' : List CardEffect}

theorem refl (scope : Scope) (p : Plan) : Gains scope p [] [] [] p where
  player := rfl
  source := rfl
  used := rfl
  points := rfl
  production _ := .refl _
  resources _ := .refl _
  rating := .refl _
  storage := (List.append_nil _).symm
  tiles := (List.append_nil _).symm
  parameters := rfl
  draw h := (saturateNat32_of_le h).symm
  actions := (List.append_nil _).symm
  effects := (List.append_nil _).symm

theorem trans (h : Gains scope p items actions effects p')
    (h' : Gains scope p' items' actions' effects' q) :
    Gains scope p (items ++ items') (actions ++ actions') (effects ++ effects') q where
  player := h'.player.trans h.player
  source := h'.source.trans h.source
  used := h'.used.trans h.used
  points := h'.points.trans h.points
  production r := by rw [sumOf_append]; exact (h.production r).trans (h'.production r)
  resources r := by rw [sumOf_append]; exact (h.resources r).trans (h'.resources r)
  rating := by rw [sumOf_append]; exact h.rating.trans h'.rating
  storage := by rw [h'.storage, h.storage, tokensOf_append, List.append_assoc]
  tiles := by rw [h'.tiles, h.tiles, tilesOf_append, List.append_assoc]
  parameters := by rw [h'.parameters, h.parameters, stepsOf_append]; exact (List.foldl_append ..).symm
  draw hp := by
    have hq : p'.draw ≤ maxNat32 := h.draw hp ▸ Nat.min_le_left ..
    rw [h'.draw hq, h.draw hp, saturateNat32_add, drawsOf_append]
  actions := by rw [h'.actions, h.actions, List.append_assoc]
  effects := by rw [h'.effects, h.effects, List.append_assoc]

section Fresh

variable {player : PlayerId} {source : CardId}

theorem fresh_resources (h : Gains scope { player, source } items actions effects p')
    (r : BaseResource) : p'.resources.get r = wrapInt32 (sumOf (.resource r) items) :=
  (ResourceSet.get_zero r ▸ h.resources r :).of_zero

theorem fresh_production (h : Gains scope { player, source } items actions effects p')
    (r : BaseResource) : p'.production.get r = wrapInt32 (sumOf (.production r) items) :=
  (ResourceSet.get_zero r ▸ h.production r :).of_zero

theorem fresh_rating (h : Gains scope { player, source } items actions effects p') :
    p'.rating = wrapInt32 (sumOf .terraformRating items) :=
  h.rating.of_zero

theorem fresh_draw (h : Gains scope { player, source } items actions effects p') :
    p'.draw = saturateNat32 (drawsOf items) :=
  (h.draw (Nat.zero_le _)).trans (congrArg saturateNat32 (Nat.zero_add _))

end Fresh

end Gains

variable {scope : Scope} {p p' : Plan}

theorem storageTarget?_ok {item : LineItem} {card : Option CardId}
    (h : storageTarget? item scope = .ok card) : card = item.holder? scope := by
  unfold storageTarget? at h
  unfold LineItem.holder?
  split at h
  · next ht => cases h; simp [ht]
  · next ht => cases h; simp [ht]
  · next ht =>
    rw [if_pos ht]
    split at h
    · next hs => cases h; simp [hs]
    · next c hs =>
      split at h
      · next hc => cases h; simp [hs, Option.filter, hc]
      · next hc =>
        split at h
        · cases h; simp [hs, Option.filter, hc]
        · cases h
  · cases h

theorem addOutput_gains {item : LineItem} (h : p.addOutput item scope = .ok p') :
    Gains scope p [item] [] [] p' := by
  unfold addOutput at h
  have hr := Gains.refl scope p
  split at h
  · next hc =>
    cases h
    have : ownOutputs [item] = [] := by simp [ownOutputs, hc]
    exact { hr with
      production := by simp [sumOf, amountOf, this, total]
      resources := by simp [sumOf, amountOf, this, total]
      rating := by simp [sumOf, amountOf, this, total]
      storage := by simp [tokensOf, this]
      tiles := by simp [tilesOf, this]
      parameters := by simp [stepsOf, this, addAllSteps]
      draw := by simp +contextual [drawsOf, this, saturateNat32_of_le] }
  · next hc =>
    have hown : ownOutputs [item] = [item] := by simp [ownOutputs, hc]
    have hsum (kind : ResourceKind) :
      sumOf kind [item] = if item.kind = kind then item.amount else 0 := by
      unfold sumOf amountOf
      by_cases hk : item.kind = kind <;> simp [hown, hk, total]
    cases hk : item.kind <;> simp only [hk] at h
    case cardStorage =>
      obtain ⟨card, hcard, h⟩ := except_bind_eq_ok.mp h
      have hcard := storageTarget?_ok hcard
      cases card <;> cases h <;> constructor <;>
        simp +contextual [hsum, tokensOf, tilesOf, stepsOf, drawsOf, addAllSteps, hown, hk, ← hcard,
          saturateNat32_of_le]
    all_goals
      cases h
      constructor <;>
        simp +contextual [hsum, tokensOf, tilesOf, stepsOf, drawsOf, addAllSteps, hown, hk,
          saturateNat32_of_le, ResourceSet.get_addOne, addParameterSteps]

theorem addOutputs_gains {items : List LineItem} (h : p.addOutputs items scope = .ok p') :
    Gains scope p items [] [] p' := by
  induction items generalizing p with
  | nil => cases h; exact .refl scope _
  | cons item rest ih =>
    obtain ⟨q, hq, h⟩ := except_bind_eq_ok.mp h
    exact (addOutput_gains hq).trans (ih h)

theorem addInput_gains {item : LineItem} (h : p.addInput item scope = .ok p') :
    Gains scope p (chargesOf [item]) [] [] p' := by
  unfold addInput at h
  split at h
  case h_4 hresource hproduction hstorage =>
    cases h
    rw [show chargesOf [item] = [] by simp [chargesOf]]
    exact .refl scope p
  all_goals
    next hk =>
      have := addOutput_gains h
      rwa [show chargesOf [item] = [item.charge] by simp [chargesOf, hk]]

theorem addInputs_gains {items : List LineItem} (h : p.addInputs items scope = .ok p') :
    Gains scope p (chargesOf items) [] [] p' := by
  induction items generalizing p with
  | nil => cases h; exact .refl scope _
  | cons item rest ih =>
    obtain ⟨q, hq, h⟩ := except_bind_eq_ok.mp h
    have hg := (addInput_gains hq).trans (ih h)
    rwa [← show chargesOf (item :: rest) = chargesOf [item] ++ chargesOf rest from
      List.filterMap_append (l := [item])] at hg

section Card

variable {card : Card} {choice : Option Nat}

theorem addBehavior_gains {b : Behavior} {index : Nat}
    (h : p.addBehavior card index b choice scope = .ok p') :
    Gains scope p (if b.shape == .immediate then b.outputsWith choice else [])
      (if b.shape == .manual then [{ card := card.id, name := card.name, index, behavior := b }] else [])
      (if b.shape == .passive || b.shape == .immediate && !b.modifiers.isEmpty then
        [{ card := card.id, name := card.name, index, behavior := b }] else []) p' := by
  have hr := Gains.refl scope p
  unfold addBehavior at h
  cases hs : b.shape <;> simp only [hs] at h
  case immediate =>
    cases hm : b.modifiers.isEmpty with
    | true =>
      rw [if_pos hm] at h
      exact addOutputs_gains h
    | false =>
      rw [if_neg (by simp [hm])] at h
      exact (show Gains scope p [] [] [_] { p with effects := p.effects ++ [_] } from
        { hr with effects := rfl }).trans (addOutputs_gains h)
  case manual => cases h; exact { hr with actions := rfl }
  case passive => cases h; exact { hr with effects := rfl }
  case firstAction | inert => cases h; exact hr

theorem addBehaviors_gains {l : List (Behavior × Nat)}
    (h : l.foldlM (fun p (b, index) => p.addBehavior card index b choice scope) p = .ok p') :
    Gains scope p (((l.map (·.1)).filter (·.shape == .immediate)).flatMap (·.outputsWith choice))
      ((l.filter (·.1.shape == .manual)).map fun (behavior, index) =>
        { card := card.id, name := card.name, index, behavior })
      ((l.filter fun (b, _) =>
          b.shape == .passive || b.shape == .immediate && !b.modifiers.isEmpty).map
        fun (behavior, index) => { card := card.id, name := card.name, index, behavior }) p' := by
  induction l generalizing p with
  | nil => cases h; exact .refl scope _
  | cons step rest ih =>
    obtain ⟨b, index⟩ := step
    obtain ⟨q, hq, h⟩ := except_bind_eq_ok.mp h
    have hg := (addBehavior_gains hq).trans (ih h)
    cases hs : b.shape
    case immediate => cases hm : b.modifiers.isEmpty <;> simpa [hs, hm] using hg
    all_goals simpa [hs] using hg

theorem ofCard_gains {player : Player} {target : Option CardId} {plan : Plan}
    (h : ofCard card player choice target = .ok plan) :
    Gains { card := card.id, played := player.played, target } { player := player.id, source := card.id }
      (card.gains choice) card.actions card.effects { plan with points := 0 } ∧
    plan.points =
      wrapInt32 (total ((card.victoryPoints.filter (·.kind == .fixed)).map (·.amount))) := by
  obtain ⟨q, hq, h⟩ := except_bind_eq_ok.mp h
  cases h
  have hg := addBehaviors_gains hq
  rw [List.zipIdx_map_fst] at hg
  refine ⟨{ hg with points := rfl }, rfl⟩

end Card

section Action

variable {rules : Rules} {player : Player} {action : CardAction} {choice : Option Nat}
  {target : Option CardId} {plan : Plan}

theorem ofAction_ok (h : ofAction rules player action choice target = .ok plan) :
    let scope : Scope := { card := action.card, played := player.played, target }
    let outputs := action.behavior.outputsWith choice
    ∃ charged all : Plan,
      addInputs { player := player.id, source := action.card } (action.behavior.inputsWith choice) scope =
        .ok charged ∧
      charged.checkPool player = .ok () ∧ charged.checkTokens player = .ok () ∧
      charged.checkProduction rules player = .ok () ∧
      checkProductionFloors rules (player.production + charged.production) outputs = .ok () ∧
      charged.addOutputs outputs scope = .ok all ∧ all.checkPool player = .ok () ∧
      plan = { all with used := some (action.card, action.index) } := by
  intro scope outputs
  obtain ⟨_, -, h⟩ := except_bind_eq_ok.mp h
  obtain ⟨charged, hinputs, h⟩ := except_bind_eq_ok.mp h
  obtain ⟨_, hpool, h⟩ := except_bind_eq_ok.mp h
  obtain ⟨_, htokens, h⟩ := except_bind_eq_ok.mp h
  obtain ⟨_, hproduction, h⟩ := except_bind_eq_ok.mp h
  obtain ⟨_, hfloors, h⟩ := except_bind_eq_ok.mp h
  obtain ⟨all, houtputs, h⟩ := except_bind_eq_ok.mp h
  obtain ⟨_, hafter, h⟩ := except_bind_eq_ok.mp h
  cases h
  exact ⟨charged, all, hinputs, hpool, htokens, hproduction, hfloors, houtputs, hafter, rfl⟩

theorem ofAction_gains (h : ofAction rules player action choice target = .ok plan) :
    Gains { card := action.card, played := player.played, target }
      { player := player.id, source := action.card }
      (chargesOf (action.behavior.inputsWith choice) ++ action.behavior.outputsWith choice) [] []
      { plan with used := none } ∧
    plan.used = some (action.card, action.index) := by
  obtain ⟨charged, all, hinputs, -, -, -, -, houtputs, -, rfl⟩ := ofAction_ok h
  have hg := (addInputs_gains hinputs).trans (addOutputs_gains houtputs)
  exact ⟨{ hg with used := rfl }, rfl⟩

end Action

end Plan

/-- A running sum that saturates at 32 bits from its second number on. -/
def sumInt32 (ns : List Int) : Option Int :=
  ns.foldl (fun sum n => some (sum.elim n fun m => saturateInt32 (m + n))) none

/-- The steps that outputs plan for one parameter. -/
def netSteps (q : GlobalParameter) (items : List LineItem) : Int :=
  (sumInt32 (((stepsOf items).filter (·.1 == q)).map (·.2))).getD 0

theorem steps_eq_amounts (q : GlobalParameter) (items : List LineItem) :
    ((stepsOf items).filter (·.1 == q)).map (·.2) =
      ((ownOutputs items).filter (·.kind == .globalParameter q)).map (·.amount) := by
  unfold stepsOf
  induction ownOutputs items with
  | nil => rfl
  | cons item rest ih =>
    cases hk : item.kind with
    | globalParameter p => by_cases hp : p = q <;> simp [hk, hp, ih]
    | _ => simp [hk, ih]

namespace Plan

section Steps

variable {q : GlobalParameter} {n : Int} {steps l : List (GlobalParameter × Int)}

theorem lookup_addSteps (q q' : GlobalParameter) (n : Int) (l : List (GlobalParameter × Int)) :
    (addSteps q n l).lookup q' =
      if q' = q then some ((l.lookup q).elim n fun m => saturateInt32 (m + n)) else l.lookup q' := by
  induction l with
  | nil => by_cases h : q' = q <;> simp [addSteps, h]
  | cons step rest ih =>
    obtain ⟨p, m⟩ := step
    unfold addSteps
    split
    · next hp =>
      subst hp
      by_cases h : q' = p
      · simp [h]
      · have : (q' == p) = false := by simpa using h
        simp [List.lookup_cons, h, this]
    · next hp =>
      have hq : (q == p) = false := by simpa using Ne.symm hp
      simp only [List.lookup_cons, ih, hq]
      by_cases h : q' = q
      · subst h; simp [hq]
      · simp [h]

theorem keys_addSteps (q : GlobalParameter) (n : Int) (l : List (GlobalParameter × Int)) :
    (addSteps q n l).map (·.1) = if q ∈ l.map (·.1) then l.map (·.1) else l.map (·.1) ++ [q] := by
  induction l with
  | nil => rfl
  | cons step rest ih =>
    obtain ⟨p, m⟩ := step
    unfold addSteps
    split
    · next hp => simp [hp]
    · next hp =>
      simp only [List.map_cons, ih, List.mem_cons, Ne.symm hp, false_or]
      split <;> simp

theorem nodup_addAllSteps (steps : List (GlobalParameter × Int)) (hl : (l.map (·.1)).Nodup) :
    ((addAllSteps steps l).map (·.1)).Nodup := by
  induction steps generalizing l with
  | nil => exact hl
  | cons step rest ih =>
    refine ih ?_
    rw [keys_addSteps]
    split
    · exact hl
    · next h => exact List.nodup_append.mpr ⟨hl, by simp, by rintro a ha b hb rfl; simp_all⟩

theorem lookup_addAllSteps (q : GlobalParameter) (steps l : List (GlobalParameter × Int)) :
    (addAllSteps steps l).lookup q = ((steps.filter (·.1 == q)).map (·.2)).foldl
      (fun sum n => some (sum.elim n fun m => saturateInt32 (m + n))) (l.lookup q) := by
  induction steps generalizing l with
  | nil => rfl
  | cons step rest ih =>
    obtain ⟨p, n⟩ := step
    show (addAllSteps rest (addSteps p n l)).lookup q = _
    rw [ih, lookup_addSteps]
    by_cases h : q = p
    · subst h; simp
    · have : (p == q) = false := by simpa using Ne.symm h
      simp [h, this]

theorem lookup_of_mem (hl : (l.map (·.1)).Nodup) (h : (q, n) ∈ l) : l.lookup q = some n := by
  induction l with
  | nil => cases h
  | cons step rest ih =>
    obtain ⟨p, m⟩ := step
    obtain ⟨hp, hr⟩ := List.nodup_cons.mp hl
    rcases List.mem_cons.mp h with heq | h
    · cases heq; simp
    · have : (q == p) = false := by
        refine beq_eq_false_iff_ne.mpr fun hqp => hp ?_
        exact List.mem_map.mpr ⟨_, h, hqp⟩
      rw [List.lookup_cons, this]
      exact ih hr h

theorem eq_netSteps {items : List LineItem} (h : (q, n) ∈ addAllSteps (stepsOf items) []) :
    n = netSteps q items := by
  have h := lookup_of_mem (nodup_addAllSteps _ (by simp)) h
  rw [lookup_addAllSteps] at h
  exact (congrArg (·.getD 0) h).symm

end Steps

end Plan

end MarsRules
