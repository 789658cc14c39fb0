import MarsRules.Proofs.Accounts
import MarsRules.Proofs.Apart
import MarsRules.Proofs.Handling

/-! What a passive effect pays its owner. The outputs that apply are planned together, so one that
cannot be planned keeps back the others; and as long as no call fails, what is planned is written. -/

namespace MarsRules

open Steps (Sound SoundAt)

/-- Tokens for what cannot hold any. -/
def LineItem.isMisdirected (item : LineItem) : Bool :=
  match item.kind with
  | .cardStorage _ => item.target ∉ [none, some .selfCard, some .anyCard]
  | _ => false

/-- The four numbers of a player's record that passive effects change, from another record. -/
def Player.withFunds (z y : Player) : Player :=
  { z with
    resources := y.resources
    production := y.production
    rating := y.rating
    storage := y.storage }

namespace CardEffect

variable (effect : CardEffect) (g : GameId) (owner : PlayerId) (e : Event)

/-- One of the outputs that apply has tokens for what cannot hold any. -/
def isMisdirected : Bool := (ownOutputs (effect.applicable owner e)).any (·.isMisdirected)

/-- The outputs that the owner is due when the event happens in this game: none, unless all of them
can be planned. -/
def grants : List LineItem :=
  if effect.firesOn g e && !effect.isMisdirected owner e then effect.applicable owner e else []

/-- The tokens among them, and the cards they go to. -/
def tokens : List (CardId × Int) :=
  tokensOf { card := effect.card, played := [], target := none } (effect.grants g owner e)

/-- Whether the effect deals with the event: what it is due to pay can be planned, and there is
somebody to pay. -/
def deals (present : Bool) : Bool :=
  !effect.firesOn g e || present && !effect.isMisdirected owner e

/-- The owner's record with what the effect pays. -/
def pay (x : Player) : Player :=
  if effect.firesOn g e then
    match effect.plan x e with
    | .ok plan => plan.addTo x
    | .error _ => x
  else x

end CardEffect

/-- The second record has what these effects pay on top of what the first has. -/
structure Player.Earned (g : GameId) (e : Event) (effects : List CardEffect) (x y : Player) : Prop where
  resources : ∀ r, AddsUp (x.resources.get r)
    (total (effects.map fun effect => sumOf (.resource r) (effect.grants g x.id e)))
    (y.resources.get r)
  production : ∀ r, AddsUp (x.production.get r)
    (total (effects.map fun effect => sumOf (.production r) (effect.grants g x.id e)))
    (y.production.get r)
  rating : AddsUp x.rating
    (total (effects.map fun effect => sumOf .terraformRating (effect.grants g x.id e))) y.rating
  tokens : ∀ c, AddsUp (x.tokens c)
    (total (((effects.flatMap (·.tokens g x.id e)).filter (·.1 == c)).map (·.2))) (y.tokens c)
  /-- A card is known to hold tokens once it was given some. -/
  held : ∀ c, (y.storage.get? c).isSome ↔
    (x.storage.get? c).isSome ∨ c ∈ (effects.flatMap (·.tokens g x.id e)).map (·.1)

namespace Player.Earned

variable {g : GameId} {e : Event} {effects more : List CardEffect} {x y z : Player}

theorem refl (g : GameId) (e : Event) (x : Player) : x.Earned g e [] x where
  resources _ := .refl _
  production _ := .refl _
  rating := .refl _
  tokens _ := .refl _
  held _ := by simp

theorem trans (h : x.Earned g e effects y) (hid : y.id = x.id) (h' : y.Earned g e more z) :
    x.Earned g e (effects ++ more) z := by
  obtain ⟨hresources, hproduction, hrating, htokens, hheld⟩ := h'
  rw [hid] at hrating
  simp only [hid] at hresources hproduction htokens hheld
  exact {
    resources := fun r => by
      rw [List.map_append, total_append]
      exact (h.resources r).trans (hresources r)
    production := fun r => by
      rw [List.map_append, total_append]
      exact (h.production r).trans (hproduction r)
    rating := by
      rw [List.map_append, total_append]
      exact h.rating.trans hrating
    tokens := fun c => by
      rw [List.flatMap_append, List.filter_append, List.map_append, total_append]
      exact (h.tokens c).trans (htokens c)
    held := fun c => by
      rw [hheld, h.held, List.flatMap_append, List.map_append, List.mem_append, or_assoc] }

theorem perm (h : x.Earned g e effects y) (hp : effects.Perm more) : x.Earned g e more y where
  resources r := total_perm (hp.map _) ▸ h.resources r
  production r := total_perm (hp.map _) ▸ h.production r
  rating := total_perm (hp.map _) ▸ h.rating
  tokens c := total_perm (((hp.flatMap_right _).filter _).map _) ▸ h.tokens c
  held c := by rw [h.held, ((hp.flatMap_right _).map _).mem_iff]

theorem of_funds (h : z.Earned g e effects y) (hid : z.id = x.id) (hz : z = z.withFunds x) :
    x.Earned g e effects y := by
  rw [hz] at h
  have hid : (z.withFunds x).id = x.id := hid
  exact {
    resources := fun r => hid ▸ h.resources r
    production := fun r => hid ▸ h.production r
    rating := hid ▸ h.rating
    tokens := fun c => hid ▸ h.tokens c
    held := fun c => hid ▸ h.held c }

end Player.Earned

namespace Plan

variable {scope : Scope} {items : List LineItem} {plan : Plan} {x : Player}

theorem addOutput_isOk (ht : scope.target = none) (p : Plan) (item : LineItem) :
    (∃ p', p.addOutput item scope = .ok p') ↔ item.chargesOther = true ∨ item.isMisdirected = false := by
  unfold addOutput LineItem.isMisdirected
  cases hc : item.chargesOther with
  | true => simp
  | false =>
    cases hk : item.kind
    case cardStorage =>
      unfold storageTarget?
      cases htarget : item.target with
      | none => simp [bind, Except.bind, pure, Except.pure]
      | some target => cases target <;> simp [bind, Except.bind, pure, Except.pure, ht]
    all_goals simp

theorem addOutputs_isOk (ht : scope.target = none) (p : Plan) (items : List LineItem) :
    (∃ p', p.addOutputs items scope = .ok p') ↔
      (ownOutputs items).any (·.isMisdirected) = false := by
  induction items generalizing p with
  | nil => exact ⟨fun _ => rfl, fun _ => ⟨p, rfl⟩⟩
  | cons item rest ih =>
    have hcons : (ownOutputs (item :: rest)).any (·.isMisdirected) = false ↔
        (item.chargesOther = true ∨ item.isMisdirected = false) ∧
          (ownOutputs rest).any (·.isMisdirected) = false := by
      cases hc : item.chargesOther <;> simp [ownOutputs, hc]
    rw [hcons, ← addOutput_isOk ht p item]
    constructor
    · rintro ⟨p', h⟩
      obtain ⟨q, hq, h⟩ := except_bind_eq_ok.mp h
      exact ⟨⟨q, hq⟩, (ih q).mp ⟨p', h⟩⟩
    · rintro ⟨⟨q, hq⟩, hrest⟩
      obtain ⟨p', h⟩ := (ih q).mpr hrest
      exact ⟨p', except_bind_eq_ok.mpr ⟨q, hq, h⟩⟩

end Plan

namespace CardEffect

variable {effect : CardEffect} {g : GameId} {e : Event} {x : Player} {plan : Plan}

theorem plan_isOk (effect : CardEffect) (x : Player) (e : Event) :
    (∃ plan, effect.plan x e = .ok plan) ↔ effect.isMisdirected x.id e = false :=
  Plan.addOutputs_isOk rfl _ _

theorem isMisdirected_of_error {refusal : Refusal} (h : effect.plan x e = .error refusal) :
    effect.isMisdirected x.id e = true := by
  cases hm : effect.isMisdirected x.id e with
  | true => rfl
  | false =>
    obtain ⟨plan, hplan⟩ := (plan_isOk effect x e).mpr hm
    cases hplan.symm.trans h

theorem pay_of_not (h : effect.firesOn g e = false) (x : Player) : effect.pay g e x = x := by
  simp [pay, h]

@[simp] theorem pay_id (effect : CardEffect) (g : GameId) (e : Event) (x : Player) :
    (effect.pay g e x).id = x.id := by
  unfold pay
  split
  · split <;> rfl
  · rfl

theorem pay_forced (effect : CardEffect) (g : GameId) (e : Event) (x : Player) (f : Option ForcedAction) :
    effect.pay g e { x with forced := f } = { effect.pay g e x with forced := f } := by
  have hplan : effect.plan { x with forced := f } e = effect.plan x e := rfl
  unfold pay
  rw [hplan]
  split
  · split <;> rfl
  · rfl

theorem grants_of_plan (hf : effect.firesOn g e = true) (h : effect.plan x e = .ok plan) :
    effect.grants g x.id e = effect.applicable x.id e := by
  have hok := (plan_isOk effect x e).mp ⟨plan, h⟩
  simp [grants, hf, hok]

theorem pay_funds (effect : CardEffect) (g : GameId) (e : Event) (x : Player) :
    effect.pay g e x = x.withFunds (effect.pay g e x) := by
  unfold pay
  split
  · split
    · next plan h =>
      have hgains := Plan.addOutputs_gains h
      have hactions : plan.actions = [] := hgains.actions
      have heffects : plan.effects = [] := hgains.effects
      have hpoints : plan.points = 0 := hgains.points
      simp [Plan.addTo, Player.withFunds, hactions, heffects, hpoints]
    · rfl
  · rfl

theorem earned_of_grants (h : effect.grants g x.id e = []) : x.Earned g e [effect] x := by
  have hsum (kind : ResourceKind) : sumOf kind (effect.grants g x.id e) = 0 := by rw [h]; rfl
  have htokens : effect.tokens g x.id e = [] := by rw [tokens, h]; rfl
  constructor <;> simp [hsum, htokens, total]

theorem pay_earned (effect : CardEffect) (g : GameId) (e : Event) (x : Player) :
    x.Earned g e [effect] (effect.pay g e x) := by
  unfold pay
  split
  · next hf =>
    split
    · next plan h =>
      have hgains := Plan.addOutputs_gains h
      have hgrants := grants_of_plan hf h
      have hstorage : plan.storage = effect.tokens g x.id e := by
        rw [tokens, hgrants]; exact hgains.storage
      obtain ⟨hresources, hproduction, hrating⟩ := hgains.addTo x
      have hsum (kind : ResourceKind) : total ([effect].map fun effect =>
          sumOf kind (effect.grants g x.id e)) = sumOf kind (effect.applicable x.id e) := by
        rw [List.map_singleton, hgrants, total, total, Int.add_zero]
      have htokens : [effect].flatMap (·.tokens g x.id e) = plan.storage := by
        rw [List.flatMap_singleton, hstorage]
      refine ⟨fun r => hsum _ ▸ hresources r, fun r => hsum _ ▸ hproduction r, hsum _ ▸ hrating,
        fun c => htokens ▸ Plan.getD_addTokens x.storage plan.storage c, fun c => ?_⟩
      obtain ⟨n, -, hget⟩ := Plan.get?_addTokens x.storage plan.storage c
      show ((Plan.addTokens x.storage plan.storage).get? c).isSome ↔ _
      rw [hget, htokens]
      split <;> simp_all
    · next refusal h =>
      exact earned_of_grants (by simp [grants, isMisdirected_of_error h])
  · next hf => exact earned_of_grants (by simp [grants, hf])

end CardEffect

namespace Engine

variable {p : PlayerId} {w : World} {x : Player}

theorem readPlayer_of_reliable (hw : w.store.Reliable) (p : PlayerId) :
    ∃ v, v.store.Reliable ∧ World.Alike w v ∧ readPlayer p w =
      ((w.player? p).elim (.error (.refused (.playerNotFound w.game p) true)) .ok, v) := by
  have hcall := (hw.call (Read.player : Call)).2
  have halike := Store.call_alike w.store Read.player
  have hstore : Store.readPlayer w.game p w.store =
      ((w.player? p).elim (.error (.playerNotFound w.game p)) .ok, (w.store.call Read.player).2) := by
    rw [Store.readPlayer, Steps.bind_apply_ok (Store.perform_of_reliable hw Read.player)]
    have hp : (w.store.call Read.player).2.player? w.game p = w.player? p := by
      show (w.store.call Read.player).2.records.player? w.game p = _
      rw [halike.records]; rfl
    rw [← hp]
    unfold Store.thePlayer
    cases (w.store.call Read.player).2.player? w.game p <;> rfl
  refine ⟨{ w with store := (w.store.call Read.player).2 }, hcall, ⟨rfl, halike⟩, ?_⟩
  show onStore (Store.readPlayer w.game p) w = _
  unfold onStore
  rw [hstore]
  cases w.player? p <;> rfl

theorem update_of_reliable (hw : w.store.Reliable) (hx : w.player? p = some x) (f : PlayerField) :
    ∃ v, update p f w = (.ok (), v) ∧ v.store.Reliable ∧
      w.Becomes (w.records.changePlayer w.game p f.put) v := by
  let s := (w.store.call f.write).2
  let t := { s with rosters := s.rosters.put w.game (changeFirst (·.id == p) f.put (s.roster w.game)) }
  have hs : s.Reliable := (hw.call (f.write : Call)).2
  have hthere : s.player? w.game p = some x :=
    (congrArg (Records.player? · w.game p) (Store.call_alike w.store f.write).records).trans hx
  have ht : Store.updatePlayer w.game p f w.store = (.ok (), t) := by
    rw [Store.updatePlayer, Steps.bind_apply_ok (Store.perform_of_reliable hw f.write),
      Store.changePlayer, Steps.bind_apply_ok (Store.thePlayer_eq_ok.mpr ⟨hthere, rfl⟩)]
    rfl
  have hu : update p f w = (.ok (), { w with store := t }) := onStore_eq_ok.mpr ⟨t, ht, rfl⟩
  obtain ⟨-, hsession, hrecords, hdecks⟩ := update_ok hu
  exact ⟨_, hu, hs, hsession, hdecks, hrecords⟩

end Engine

namespace Noted

/-- No call can fail, and the player is there. -/
def Served (p : PlayerId) (s : World × List Change) : Prop :=
  s.1.store.Reliable ∧ ∃ x, s.1.player? p = some x

theorem readPlayer_served (p : PlayerId) :
    Sound (Served p) (fun _ => False) (ofEngine (Engine.readPlayer p)) := by
  rintro ⟨w, noted⟩ ⟨hw, x, hx⟩
  obtain ⟨v, hv, ha, hread⟩ := Engine.readPlayer_of_reliable hw p
  have hread : Engine.readPlayer p w = (.ok x, v) := by rw [hread, hx]; rfl
  have h : ofEngine (Engine.readPlayer p) (w, noted) = (.ok x, v, noted) := by
    rw [ofEngine_apply, hread]
  refine ⟨fun a t ht => ?_, fun stop t ht => by cases h.symm.trans ht⟩
  cases h.symm.trans ht
  exact ⟨hv, x, (ha.player? p).trans hx⟩

theorem overwrite_served {p : PlayerId} {player : Player} (hp : player.id = p) (f : PlayerField) :
    Sound (Served p) (fun _ => False) (overwrite player f) := by
  subst hp
  rintro ⟨w, noted⟩ ⟨hw, x, hx⟩
  obtain ⟨v, hu, hv, hbecomes⟩ := Engine.update_of_reliable hw hx f
  have hid : ∀ y : Player, y.id = player.id → (f.put y).id = player.id := by simp
  have h : overwrite player f (w, noted) =
      (.ok (), v, .player player.id (f.current player) :: noted) := by
    show ofEngine (Engine.update player.id f) (w, _) = _
    rw [ofEngine_apply, hu]
  refine ⟨fun a t ht => ?_, fun stop t ht => by cases h.symm.trans ht⟩
  cases h.symm.trans ht
  refine ⟨hv, f.put x, ?_⟩
  show v.records.player? v.game player.id = _
  rw [hbecomes.game, hbecomes.records, Records.player?_changePlayer hid, show w.records.player? w.game _ = _ from hx]
  rfl

end Noted

namespace Plan

variable {plan : Plan} {rules : Rules} {w : World} {x : Player}

theorem Passive.write_served (h : plan.Passive) (hq : plan.parameters = []) (rules : Rules) :
    Sound (Noted.Served plan.player) (fun _ => False) (plan.write rules true) := by
  have hsteps : Noted.applySteps rules plan.player plan.parameters = pure [] := by rw [hq]; rfl
  intro s hs
  refine SoundAt.bind (Noted.readPlayer_served _ s hs) fun player t ht hready => ?_
  obtain ⟨v, hv, rfl⟩ := Noted.ofEngine_eq_ok.mp (show Noted.ofEngine _ (s.1, s.2) = _ from ht)
  have hid : player.id = plan.player := World.player?_id (Engine.readPlayer_ok hv).1
  have ho (f : PlayerField) := Noted.overwrite_served hid f
  have hpure : Sound (Noted.Served plan.player) (fun _ => False)
      (pure () : Noted Unit) := Sound.pure _
  rw [hsteps]
  refine Sound.bind (Sound.bind ((ho _).when _) fun _ => ?_) (fun _ => ?_) _ hready
  · refine Sound.bind (by simpa [writeActions, h.actions, h.used] using hpure) fun _ => ?_
    refine Sound.bind (by simpa [writeEffects, h.effects] using hpure) fun _ => ?_
    refine ((ho _).when _).bind fun _ => ?_
    refine ((ho _).when _).bind fun _ => ?_
    refine ((ho _).when _).bind fun _ => ?_
    refine ((ho _).when _).bind fun _ => ?_
    simpa [writeTiles, h.tiles] using hpure
  · refine (Sound.pure _).bind fun _ => ?_
    exact Sound.bind (by simpa [writeDraw, h.draw] using hpure) fun _ => Sound.pure _

theorem Passive.commit_pays (h : plan.Passive) (hq : plan.parameters = []) (hw : w.store.Reliable)
    (hx : w.player? x.id = some x) (hp : plan.player = x.id) (rules : Rules) :
    ∃ v, plan.commit rules false w = (.ok [], v) ∧ v.store.Reliable ∧
      w.Becomes (w.records.changePlayer w.game x.id fun _ => plan.addTo x) v := by
  have hlistening : plan.write rules false = plan.write rules true := by
    simp [write, writeRecord, writeEffects, h.effects]
  have hserved := h.write_served hq rules (w, []) ⟨hw, x, hp ▸ hx⟩
  rcases hs : plan.write rules true (w, []) with ⟨stop | changes, v, noted⟩
  · exact (hserved.stop _ _ hs).elim
  obtain ⟨board, hb⟩ := w.exists_playsOn
  obtain ⟨-, hchanges, actions, hused, hreached⟩ := write_reached_using hs (.start hx) hp rfl hb
  obtain rfl : changes = [] := by rw [hchanges, hq]; rfl
  have hplayer : { (plan.reached rules w board ⟨x, [], w.session, w.store.decks⟩).player with actions } =
      plan.addTo x := by
    obtain rfl : x.actions = actions := by simpa [h.used, h.actions, useUp] using hused
    rw [reached_player]
    simp [addTo, h.tiles, h.draw, h.actions, hq, Player.withTiles, Player.withDraw,
      ParameterChange.ofSteps, ParameterChange.rating, total]
  have hcommit : plan.commit rules false w = (.ok [], v) := by
    have htransact : transact keepAll (plan.write rules false) w = (.ok [], v) := by
      simp [transact, hlistening, hs]
    exact Steps.bind_apply_ok htransact
  refine ⟨v, hcommit, (hserved.ok _ _ hs).1, ?_⟩
  simp only [hplayer] at hreached
  refine ⟨?_, ?_, ?_⟩
  · rw [hreached.session]
    simp [reached, h.effects]
  · rw [hreached.decks]
    simp [reached, h.draw]
  · rw [hreached.records]
    simp [reached, hq, ParameterChange.ofSteps, addTo, Records.moveOn_nil]

end Plan

theorem Records.changePlayer_of_player? {r : Records} {g : GameId} {p : PlayerId} {f : Player → Player}
    (h : ∀ x, r.player? g p = some x → f x = x) : r.changePlayer g p f = r :=
  (changePlayer_congr h).trans changePlayer_id

/-- The second world is the first with what the effect pays. -/
structure World.Paid (w : World) (e : Event) (owner : PlayerId) (effect : CardEffect) (v : World) :
    Prop where
  reliable : v.store.Reliable
  becomes : w.Becomes (w.records.changePlayer w.game owner (effect.pay w.game e)) v
  /-- An effect that the event does not concern makes no calls either. -/
  idle : effect.firesOn w.game e = false → v = w

namespace CardEffect

variable {effect : CardEffect} {rules : Rules} {owner : PlayerId} {e : Event} {w v : World}

theorem stepsOf_applicable_of_nil (h : stepsOf effect.behavior.outputs = []) (owner : PlayerId)
    (e : Event) : stepsOf (effect.applicable owner e) = [] := by
  refine List.filterMap_eq_nil_iff.mpr fun item hitem => List.filterMap_eq_nil_iff.mp h item ?_
  obtain ⟨happlies, hown⟩ := List.mem_filter.mp hitem
  exact List.mem_filter.mpr ⟨(List.mem_filter.mp happlies).1, hown⟩

theorem paid_of_alike (hv : v.store.Reliable) (ha : World.Alike w v) (hf : effect.firesOn w.game e = true)
    (hpay : ∀ x, w.player? owner = some x → effect.pay w.game e x = x) : w.Paid e owner effect v where
  reliable := hv
  becomes := by
    rw [Records.changePlayer_of_player? hpay]
    exact .of_alike ha
  idle h := by cases hf.symm.trans h

theorem react_of_not (hf : effect.firesOn w.game e = false) (rules : Rules) (owner : PlayerId) :
    effect.react rules owner e w = (.ok [], w) := by
  show (if !effect.firesOn w.game e then _ else _ : Engine (List Event)) w = _
  rw [hf]
  rfl

theorem react_of_fires (hf : effect.firesOn w.game e = true) (rules : Rules) (owner : PlayerId) :
    effect.react rules owner e w = (Engine.readPlayer owner >>= fun player =>
      Engine.ofExcept (effect.plan player e) >>= fun plan =>
        if plan.isEmpty then pure [] else plan.commit rules false) w := by
  show (if !effect.firesOn w.game e then _ else _ : Engine (List Event)) w = _
  rw [hf]
  rfl

theorem paid_of_plan {u : World} {x : Player} {plan : Plan} (hu : u.store.Reliable)
    (ha : World.Alike w u) (hf : effect.firesOn w.game e = true) (hp : w.player? x.id = some x)
    (hplan : effect.plan x e = .ok plan) (hsteps : stepsOf effect.behavior.outputs = []) (rules : Rules) :
    ∃ v, (if plan.isEmpty then pure [] else plan.commit rules false : Engine (List Event)) u =
      (.ok [], v) ∧ w.Paid e x.id effect v := by
  have hpay : effect.pay w.game e x = plan.addTo x := by simp [pay, hf, hplan]
  have hgains := Plan.addOutputs_gains hplan
  have hq : plan.parameters = [] := by
    rw [hgains.parameters, stepsOf_applicable_of_nil hsteps]; rfl
  cases hempty : plan.isEmpty with
  | true =>
    refine ⟨u, rfl, paid_of_alike hu ha hf fun y hy => ?_⟩
    obtain rfl := Option.some.inj (hp.symm.trans hy)
    rw [hpay, Plan.addTo_of_isEmpty hempty]
  | false =>
    obtain ⟨v, hcommit, hv, hbecomes⟩ := (plan_passive hplan).commit_pays hq hu
      ((ha.player? x.id).trans hp) hgains.player rules
    refine ⟨v, hcommit, hv, ?_, fun h => by cases hf.symm.trans h⟩
    have hrecords : u.records.changePlayer u.game x.id (fun _ => plan.addTo x) =
        w.records.changePlayer w.game x.id (effect.pay w.game e) := by
      rw [World.game, ha.session, show u.records = w.records from ha.store.records]
      refine Records.changePlayer_congr fun y hy => ?_
      obtain rfl := Option.some.inj (hp.symm.trans hy)
      exact hpay.symm
    exact hrecords ▸ (World.Becomes.of_alike ha).trans hbecomes

/-- Where no call can fail, an effect pays what it can plan, and is refused where it cannot. -/
theorem react_pays (hw : w.store.Reliable) (hsteps : stepsOf effect.behavior.outputs = [])
    (rules : Rules) (owner : PlayerId) (e : Event) :
    ∃ r v, effect.react rules owner e w = (r, v) ∧ w.Paid e owner effect v ∧
      if effect.deals w.game owner e (w.player? owner).isSome then r = .ok []
      else ∃ refusal, r = .error (.refused refusal true) := by
  cases hf : effect.firesOn w.game e with
  | false =>
    refine ⟨_, w, react_of_not hf rules owner, ⟨hw, ?_, fun _ => rfl⟩, by simp [deals, hf]⟩
    rw [Records.changePlayer_of_player? fun x _ => pay_of_not hf x]
    exact .of_alike (Std.Refl.refl w)
  | true =>
    have hreact := react_of_fires hf rules owner
    obtain ⟨u, hu, ha, hread⟩ := Engine.readPlayer_of_reliable hw owner
    cases hp : w.player? owner with
    | none =>
      rw [hp] at hread
      rw [Steps.bind_apply_error hread] at hreact
      refine ⟨_, u, hreact, paid_of_alike hu ha hf fun x hx => ?_, by simp [deals, hf]⟩
      cases hp.symm.trans hx
    | some x =>
      obtain rfl := World.player?_id hp
      rw [hp] at hread
      rw [Steps.bind_apply_ok hread] at hreact
      cases hplan : effect.plan x e with
      | error refusal =>
        have hmis := isMisdirected_of_error hplan
        rw [hplan, Steps.bind_apply_error (show Engine.ofExcept (.error refusal) u = _ from rfl)] at hreact
        refine ⟨_, u, hreact, paid_of_alike hu ha hf fun y hy => ?_, by simp [deals, hf, hmis]⟩
        obtain rfl := Option.some.inj (hp.symm.trans hy)
        simp [pay, hplan]
      | ok plan =>
        rw [hplan, Steps.bind_apply_ok (show Engine.ofExcept (.ok plan) u = _ from rfl)] at hreact
        obtain ⟨v, hv, hpaid⟩ := paid_of_plan hu ha hf hp hplan hsteps rules
        refine ⟨_, v, hreact.trans hv, hpaid, ?_⟩
        simp [deals, (plan_isOk effect x e).mp ⟨plan, hplan⟩]

end CardEffect

end MarsRules
