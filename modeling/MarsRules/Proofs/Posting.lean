import MarsRules.Proofs.Ledger
import MarsRules.Session.Draw

/-! What the calls of a session enter in the ledger: each commit that succeeds enters its outputs once,
and one that is refused and put back enters nothing. -/

namespace MarsRules

open Steps (Keeps)

section Outputs

variable {items : List LineItem}

@[simp] theorem ownOutputs_ownOutputs : ownOutputs (ownOutputs items) = ownOutputs items := by
  simp [ownOutputs]

theorem Ledger.enter_ownOutputs (rules : Rules) (l : Ledger) :
    l.enter rules (ownOutputs items) = l.enter rules items := by
  have hsum (kind : ResourceKind) : sumOf kind (ownOutputs items) = sumOf kind items := by simp [sumOf]
  have hsteps (q : GlobalParameter) : netSteps q (ownOutputs items) = netSteps q items := by
    simp [netSteps, stepsOf]
  simp only [enter, Parameters.moved, hsum, hsteps]

/-- Inputs are charged in resources, productions and tokens, never in ratings or steps. -/
theorem kind_of_mem_chargesOf {item : LineItem} (h : item ∈ chargesOf items) :
    item.kind ≠ .terraformRating ∧ ∀ q, item.kind ≠ .globalParameter q := by
  obtain ⟨charged, -, h⟩ := List.mem_filterMap.mp h
  split at h
  all_goals cases h
  all_goals
    next hk => exact ⟨by simp [LineItem.charge, hk], fun q => by simp [LineItem.charge, hk]⟩

theorem sumOf_charged (items items' : List LineItem) :
    sumOf .terraformRating (chargesOf items ++ items') = sumOf .terraformRating items' := by
  have hnone : (ownOutputs (chargesOf items)).filter (·.kind == .terraformRating) = [] :=
    List.filter_eq_nil_iff.mpr fun item h => by
      simp [(kind_of_mem_chargesOf (List.mem_filter.mp h).1).1]
  rw [sumOf_append, sumOf, amountOf, hnone]
  exact Int.zero_add _

theorem stepsOf_charged (items items' : List LineItem) :
    stepsOf (chargesOf items ++ items') = stepsOf items' := by
  have hnone : stepsOf (chargesOf items) = [] := List.filterMap_eq_nil_iff.mpr fun item h => by
    have hk := (kind_of_mem_chargesOf (List.mem_filter.mp h).1).2
    split
    · next q hq => exact absurd hq (hk q)
    · rfl
  rw [stepsOf_append, hnone, List.nil_append]

/-- Outputs that come to nothing leave the ledger as it is. -/
theorem Ledger.enter_eq_self (rules : Rules) {l : Ledger} (hl : FitsInt32 l.ratings)
    (hr : wrapInt32 (sumOf .terraformRating items) = 0)
    (hs : ∀ q, netSteps q items = 0) : l.enter rules items = l := by
  have hm : l.parameters.moved rules items = l.parameters :=
    Parameters.ext_get fun q => by rw [Parameters.get_moved, if_pos (hs q)]
  have hg : ParameterChange.gained rules l.parameters l.parameters = 0 := by
    simp [ParameterChange.gained, ParameterChange.allSteps, GlobalParameter.all, total]
  have hsame : wrapInt32 (l.ratings + sumOf .terraformRating items) = l.ratings := by
    rw [← wrapInt32_add_wrapInt32, hr, Int.add_zero, wrapInt32_of_fits hl]
  simp [enter, hm, hg, hsame]

theorem World.Level.posted {w v : World} (h : Level w v) (rules : Rules) : Posted rules [] [] w v :=
  .before ⟨(Ledger.enter_eq_self rules (fits_wrapInt32 _) rfl fun _ => rfl).symm,
    fun q => by simp [movesOf]⟩ h

end Outputs

/-- The events of some changes tell of the parameters that have moved. -/
theorem ParameterChange.movesOf_events {changes : List ParameterChange} {before : Parameters}
    (hn : (changes.map (·.parameter)).Nodup) (hb : ∀ c ∈ changes, c.before = before.get c.parameter)
    (hc : ∀ c ∈ changes, c.isChange) (g : GameId) (q : GlobalParameter) :
    movesOf q (changes.map (·.event g)) = moveFrom (before.get q) ((before.after changes).get q) := by
  induction changes generalizing before with
  | nil => exact (moveFrom_self _).symm
  | cons c rest ih =>
    obtain ⟨hfirst, hrest⟩ := List.nodup_cons.mp hn
    obtain ⟨hcb, hb⟩ := List.forall_mem_cons.mp hb
    obtain ⟨hcc, hc⟩ := List.forall_mem_cons.mp hc
    have hne : ∀ d ∈ rest, d.parameter ≠ c.parameter := fun d hd h =>
      hfirst (List.mem_map.mpr ⟨d, hd, h⟩)
    have hb : ∀ d ∈ rest, d.before = (before.set c.parameter c.after).get d.parameter := fun d hd => by
      rw [hb d hd, Parameters.get_set, if_neg (Ne.symm (hne d hd))]
    have hmoves := ih hrest hb hc
    rw [Parameters.get_set] at hmoves
    have hmove : (c.event g).move? q = if c.parameter = q then some (c.before, c.after) else none := rfl
    rw [List.map_cons, Parameters.after_cons, movesOf_cons, hmove]
    by_cases hq : c.parameter = q
    · subst hq
      have hlast : ((before.set c.parameter c.after).after rest).get c.parameter = c.after := by
        rw [Parameters.get_after_of_forall_ne hne, Parameters.get_set, if_pos rfl]
      have hne : before.get c.parameter ≠ c.after := by simpa [isChange, hcb] using hcc
      rw [if_pos rfl, hlast, moveFrom_self] at hmoves
      simp [hmoves, hlast, moveFrom, hne, hcb]
    · rw [if_neg hq] at hmoves
      simp [hmoves, hq]

section Commit

variable {rules : Rules} {items : List LineItem} {events : List Event} {plan : Plan} {w v : World}

/-- The total once one of the numbers in it has been added to twice. -/
theorem wrapInt32_total (sum n a b : Int) :
    wrapInt32 (sum + (addInt32 (addInt32 n (wrapInt32 a)) b - n)) =
      wrapInt32 (wrapInt32 sum + (a + b)) := by
  rw [wrapInt32_wrapInt32_add, wrapInt32_eq_iff]
  have := dvd_wrapInt32_sub a
  have := dvd_addInt32_sub n (wrapInt32 a)
  have := dvd_addInt32_sub (addInt32 n (wrapInt32 a)) b
  omega

/-- A position that is reached by moving the parameters and rating the player. -/
theorem World.Reached.posted {x : Position} {player : Player} (hx : w.Reached x v)
    (hp : w.player? x.player.id = some player)
    (hc : x.changes = ParameterChange.ofSteps rules w.parameters (Plan.addAllSteps (stepsOf items) []))
    (hadmits : rules.Admits (Plan.addAllSteps (stepsOf items) []))
    (hr : x.player.rating = addInt32 (addInt32 player.rating (wrapInt32 (sumOf .terraformRating items)))
      (ParameterChange.rating rules x.changes)) (g : GameId) :
    Posted rules items (x.changes.map (·.event g)) w v := by
  have hnodup : (x.changes.map (·.parameter)).Nodup :=
    hc ▸ ParameterChange.ofSteps_nodup (Plan.nodup_addAllSteps _ (l := []) List.nodup_nil)
  have hbefore : ∀ c ∈ x.changes, c.before = w.parameters.get c.parameter := fun c hm =>
    ParameterChange.before_of_mem_ofSteps (hc ▸ hm)
  have hchange : ∀ c ∈ x.changes, c.isChange := fun c hm => by
    obtain ⟨n, -, -, -, hchange⟩ := ParameterChange.mem_ofSteps.mp (hc ▸ hm)
    exact hchange
  have hmoved : v.parameters = w.parameters.moved rules items := Parameters.ext_get fun q => by
    rw [hx.parameters, hc, moved_of_ofSteps hadmits, Parameters.get_moved]
  have hratings : v.records.ratings v.game =
      w.records.ratings w.game + (x.player.rating - player.rating) := by
    rw [hx.game_eq, hx.records, Records.ratings_changePlayer (x := player), Records.moveOn,
      Records.ratings_changeGame]
    rw [Records.moveOn, Records.player?_changeGame]
    exact hp
  refine ⟨?_, fun q => ?_⟩
  · rw [ParameterChange.rating_eq hnodup hbefore, ← hx.parameters] at hr
    show Ledger.mk _ _ = Ledger.mk _ _
    rw [hmoved, hratings, hr, hmoved]
    congr 1
    show _ = wrapInt32 (wrapInt32 _ + (_ + if rules.ratingPerStep then
      ParameterChange.gained rules w.parameters (w.parameters.moved rules items) else 0))
    exact wrapInt32_total ..
  · rw [ParameterChange.movesOf_events hnodup hbefore hchange, hx.parameters]

theorem Plan.commit_posted {listening : Bool} (h : plan.commit rules listening w = (.ok events, v))
    (hl : listening = false → plan.effects = []) (hr : plan.rating = wrapInt32 (sumOf .terraformRating items))
    (hs : plan.parameters = addAllSteps (stepsOf items) []) : World.Posted rules items events w v := by
  obtain ⟨changes, u, hwrite, h⟩ := Steps.bind_eq_ok.mp h
  obtain ⟨g, _, hg, h⟩ := Steps.bind_eq_ok.mp h
  cases hg
  obtain ⟨rfl, rfl⟩ := Steps.pure_eq_ok.mp h
  obtain ⟨noted, hwrite⟩ := transact_ok hwrite
  -- a plan without effects subscribes none, listening or not
  have hsame : plan.write rules listening = plan.write rules true := by
    cases listening with
    | true => rfl
    | false => simp only [write, writeRecord, writeEffects, hl rfl, List.isEmpty_nil, Bool.not_true,
        Steps.when_false]
  rw [hsame] at hwrite
  obtain ⟨player, _, hplayer, -⟩ := Steps.bind_eq_ok.mp hwrite
  obtain ⟨_, hplayer, -⟩ := Noted.ofEngine_eq_ok.mp hplayer
  have hp := (Engine.readPlayer_ok hplayer).1
  have hid : player.id = plan.player := World.player?_id hp
  obtain ⟨board, hb⟩ := w.exists_playsOn
  obtain ⟨hadmits, rfl, actions, -, hx⟩ := write_reached_using hwrite (.start (hid ▸ hp)) hid.symm rfl hb
  rw [hs] at hadmits
  refine hx.posted (show w.player? _ = some player from ?_) (by rw [← hs]; rfl) hadmits ?_ u.game
  · rw [reached_player]
    exact hid ▸ hp
  · rw [reached_player, ← hr]
    rfl

theorem Plan.netSteps_of_isEmpty (h : plan.isEmpty = true)
    (hs : plan.parameters = addAllSteps (stepsOf items) []) (q : GlobalParameter) :
    netSteps q items = 0 := by
  refine Decidable.byContradiction fun hq => hq ?_
  simp only [isEmpty, Bool.and_eq_true, List.all_eq_true, beq_iff_eq] at h
  exact h.1.2 _ (hs ▸ mem_of_netSteps hq)

theorem Plan.commit_unless_posted {listening : Bool}
    (h : (if plan.isEmpty then pure [] else plan.commit rules listening : Engine (List Event)) w =
      (.ok events, v)) (hl : listening = false → plan.effects = [])
    (hr : plan.rating = wrapInt32 (sumOf .terraformRating items))
    (hs : plan.parameters = addAllSteps (stepsOf items) []) : World.Posted rules items events w v := by
  split at h
  · next hempty =>
    obtain ⟨rfl, rfl⟩ := Steps.pure_eq_ok.mp h
    refine ⟨(Ledger.enter_eq_self rules (fits_wrapInt32 _) ?_ (netSteps_of_isEmpty hempty hs)).symm,
      fun q => by simp [movesOf]⟩
    simp only [isEmpty, Bool.and_eq_true, beq_iff_eq] at hempty
    rw [← hr]
    exact hempty.1.1.1.1.2
  · exact commit_posted h hl hr hs

end Commit

/-- What a listener applies when it reacts to an event. -/
def Listener.outputs (g : GameId) (e : Event) : Listener → List LineItem
  | .effect owner standing => if standing.firesOn g e then standing.applicable owner e else []
  | _ => []

theorem CardEffect.react_posted {effect : CardEffect} {rules : Rules} {owner : PlayerId} {e : Event}
    {events : List Event} {w v : World} (h : effect.react rules owner e w = (.ok events, v)) :
    World.Posted rules (Listener.outputs w.game e (.effect owner effect)) events w v := by
  replace h : (if !effect.firesOn w.game e then _ else _ : Engine (List Event)) w = (.ok events, v) := h
  split at h
  · next hfires =>
    have hfires : ¬ effect.firesOn w.game e := by simpa using hfires
    obtain ⟨rfl, rfl⟩ := Steps.pure_eq_ok.mp h
    rw [Listener.outputs, if_neg hfires]
    exact World.Level.posted (Std.Refl.refl w) rules
  · next hfires =>
    have hfires : effect.firesOn w.game e := by simpa using hfires
    obtain ⟨player, u, hplayer, h⟩ := Steps.bind_eq_ok.mp h
    obtain ⟨plan, u', hplan, h⟩ := Steps.bind_eq_ok.mp h
    obtain ⟨hp, hu⟩ := Engine.readPlayer_ok hplayer
    obtain ⟨hof, rfl⟩ := Engine.ofExcept_eq_ok.mp hplan
    have hgains := Plan.addOutputs_gains hof
    rw [World.player?_id hp] at hgains
    rw [Listener.outputs, if_pos hfires]
    refine .after hu.level (Plan.commit_unless_posted h (fun _ => hgains.effects) ?_ hgains.parameters)
    exact hgains.fresh_rating

theorem CardEffect.react_level {effect : CardEffect} {rules : Rules} {owner : PlayerId} {e : Event}
    {refusal : Refusal} {w v : World}
    (h : effect.react rules owner e w = (.error (.refused refusal true), v)) : World.Level w v := by
  rcases react_cases h with ⟨hv, -⟩ | ⟨player, plan, u, -, -, -, hu, hc⟩
  · exact hv.level
  · exact Trans.trans hu.level (Engine.commit_reverts plan rules false u refusal v hc).level

namespace Listener

variable {book : Rulebook} {l : Listener} {e : Event} {w v : World}

/-- A listener that reacts enters what it applies. -/
theorem react_posted {events : List Event} (h : l.react book e w = (.ok events, v)) :
    World.Posted book.rules (l.outputs w.game e) events w v := by
  cases l with
  | recorder =>
    have hlevel : World.Level w v := by cases h; rfl
    cases h
    exact hlevel.posted book.rules
  | forcedAction =>
    obtain ⟨_, u, hu, h⟩ := Steps.bind_eq_ok.mp h
    obtain ⟨rfl, rfl⟩ := Steps.pure_eq_ok.mp h
    exact World.Level.posted ((Engine.watchForced_level _ _).apply hu) book.rules
  | effect owner standing => exact standing.react_posted h

theorem react_level {refusal : Refusal} (h : l.react book e w = (.error (.refused refusal true), v)) :
    World.Level w v := by
  cases l with
  | recorder => cases h
  | forcedAction =>
    exact ((Engine.watchForced_level _ _).bind fun _ => Keeps.pure _).apply h
  | effect owner standing => exact standing.react_level h

end Listener

/-- The steps of a transaction enter nothing. -/
abbrev Noted.Level (s t : World × List Change) : Prop := s.1.Level t.1

instance : Std.Refl Noted.Level := ⟨fun _ => rfl⟩

instance : Trans Noted.Level Noted.Level Noted.Level := ⟨fun h h' => Eq.trans h' h⟩

theorem Noted.ofEngine_level {α : Type} {x : Engine α} (hx : Keeps World.Level x) :
    Keeps Noted.Level (ofEngine x) := fun (w, _) => hx w

theorem Noted.overwrite_level (player : Player) {f : PlayerField} (h : f.write ≠ .rating) :
    Keeps Noted.Level (overwrite player f) :=
  fun (w, _) => Engine.update_level h w

namespace TileOffer

theorem pick_ok {o : Option TileOffer} {offer : TileOffer} {c : Coord} (h : pick o c = .ok offer) :
    o = some offer ∧ c ∈ offer.hexes := by
  unfold pick at h
  split at h
  · cases h
  · split at h
    · next hc =>
      cases h
      exact ⟨rfl, by simpa using hc⟩
    · cases h

/-- What placing the tile of the offer raises. -/
def raised (offer : TileOffer) : List LineItem :=
  offer.tile.raises?.toList.map fun q => { kind := .globalParameter q, amount := 1 }

theorem steps_raised (offer : TileOffer) :
    offer.tile.raises?.toList.map (·, (1 : Int)) = Plan.addAllSteps (stepsOf offer.raised) [] := by
  unfold raised
  cases offer.tile <;> rfl

theorem rating_raised (offer : TileOffer) : sumOf .terraformRating offer.raised = 0 := by
  unfold raised
  cases offer.tile <;> rfl

end TileOffer

namespace Engine

variable {rules : Rules} {book : Rulebook} {p : PlayerId} {events : List Event} {w v : World}

theorem commitCard_posted {card : Card} {choice : Option Nat} {target : Option CardId}
    (h : commitCard rules p card choice target w = (.ok events, v)) :
    World.Posted rules (card.gains choice) events w v := by
  obtain ⟨player, u, hplayer, h⟩ := Steps.bind_eq_ok.mp h
  obtain ⟨plan, u', hplan, h⟩ := Steps.bind_eq_ok.mp h
  obtain ⟨hof, rfl⟩ := ofExcept_eq_ok.mp hplan
  have hgains := (Plan.ofCard_gains hof).1
  refine .after ((readPlayer_alike p).apply hplayer).level
    (Plan.commit_unless_posted h (fun hl => by cases hl) ?_ hgains.parameters)
  exact hgains.fresh_rating

theorem commitUse_posted {card : CardId} {index : Nat} {choice : Option Nat} {target : Option CardId}
    (h : commitUse rules p card index choice target w = (.ok events, v)) :
    ∃ player action, w.player? p = some player ∧ player.action? card index = some action ∧
      World.Posted rules (action.behavior.outputsWith choice) events w v := by
  obtain ⟨player, u, hplayer, h⟩ := Steps.bind_eq_ok.mp h
  obtain ⟨action, _, haction, h⟩ := Steps.bind_eq_ok.mp h
  obtain ⟨hfound, rfl⟩ := ofExcept_eq_ok.mp haction
  obtain ⟨plan, _, hplan, h⟩ := Steps.bind_eq_ok.mp h
  obtain ⟨hof, rfl⟩ := ofExcept_eq_ok.mp hplan
  obtain ⟨hp, hu⟩ := readPlayer_ok hplayer
  have hgains := (Plan.ofAction_gains hof).1
  have hrating : plan.rating = _ := hgains.fresh_rating
  have hsteps : plan.parameters = _ := hgains.parameters
  rw [stepsOf_charged] at hsteps
  rw [sumOf_charged] at hrating
  refine ⟨player, action, hp, ?_, .after hu.level (Plan.commit_posted h (fun hl => by cases hl)
    hrating hsteps)⟩
  unfold Player.findAction at hfound
  split at hfound
  · cases hfound
  · split at hfound
    · cases hfound
      assumption
    · cases hfound

theorem writePaid_level (player : Player) (card : Card) (r : PlayRequest) (paid : ResourceSet) :
    Keeps Noted.Level (writePaid player card r paid) := by
  have hkept {f : PlayerField} (h : f.write ≠ .rating) := Noted.overwrite_level player h
  refine ((hkept (by simp [PlayerField.write])).when _).bind fun _ => ?_
  refine (hkept (by simp [PlayerField.write])).bind fun _ => ?_
  refine (hkept (by simp [PlayerField.write])).bind fun _ => ?_
  unfold startTokens
  split
  · exact hkept (by simp [PlayerField.write])
  · exact Keeps.pure _

theorem commitPlay_posted {r : PlayRequest} (h : commitPlay book p r w = (.ok events, v)) :
    ∃ card, book.catalog.find? r.card = some card ∧
      World.Posted book.rules (card.gains r.choice) events w v := by
  obtain ⟨⟨player, card, paid⟩, u, hcheck, h⟩ := Steps.bind_eq_ok.mp h
  obtain ⟨written, u', hwrite, h⟩ := Steps.bind_eq_ok.mp h
  obtain ⟨g, _, hg, h⟩ := Steps.bind_eq_ok.mp h
  cases hg
  obtain ⟨rfl, rfl⟩ := Steps.pure_eq_ok.mp h
  obtain ⟨noted, hwrite⟩ := transact_ok hwrite
  rw [writePlay_eq] at hwrite
  obtain ⟨_, s, hpaid, hcard⟩ := Steps.bind_eq_ok.mp hwrite
  obtain ⟨x, hcard, hx⟩ := Noted.ofEngine_eq_ok.mp (show Noted.ofEngine _ (s.1, s.2) = _ from hcard)
  obtain ⟨rfl, -⟩ := Prod.mk.inj hx
  obtain ⟨ha, -, -, hfound, -⟩ := checkPlay_ok hcheck
  have hlevel : World.Level w s.1 :=
    Trans.trans ha.level ((writePaid_level player card r paid).apply hpaid : Noted.Level _ s)
  refine ⟨card, hfound, .append (.after hlevel (commitCard_posted hcard)) fun e he q => ?_⟩
  obtain rfl := List.mem_singleton.mp he
  rfl

theorem commitDraw_level (p : PlayerId) (picked : List CardId) : Keeps World.Level (commitDraw p picked) :=
  (StepLaw.keeps World.Level World.Alike.level).commitDraw
    (fun _ hf => update_level fun hr => by simp [hr] at hf) picked

theorem commitDraw_move {picked : List CardId} {e : Event} (h : commitDraw p picked w = (.ok e, v))
    (q : GlobalParameter) : e.move? q = none := by
  have hlast {u : World} {f f' : PlayerField} {confirmed : GameId → DrawConfirmed}
      (h : (do update p f; update p f'; return .drawConfirmed (confirmed (← gameId)) : Engine Event) u =
        (.ok e, v)) : e.move? q = none := by
    obtain ⟨_, u₁, -, h⟩ := Steps.bind_eq_ok.mp h
    obtain ⟨_, u₂, -, h⟩ := Steps.bind_eq_ok.mp h
    obtain ⟨g, u₃, -, h⟩ := Steps.bind_eq_ok.mp h
    rw [← (Steps.pure_eq_ok.mp h).1]
    rfl
  obtain ⟨player, u, -, h⟩ := Steps.bind_eq_ok.mp h
  cases ho : player.drawOffer with
  | none =>
    simp only [ho] at h
    cases h
  | some offer =>
    simp only [ho] at h
    obtain ⟨_, u, -, h⟩ := Steps.bind_eq_ok.mp h
    split at h
    · obtain ⟨_, u, -, h⟩ := Steps.bind_eq_ok.mp h
      exact hlast h
    · exact hlast h

theorem writeReward_reached {player : Player} {offer : TileOffer} {bonus : ResourceSet}
    {changes : List ParameterChange} {t : World × List Change}
    (h : writeReward rules player offer bonus (w, []) = (.ok changes, t))
    (hp : w.player? player.id = some player) :
    rules.Admits (offer.tile.raises?.toList.map (·, 1)) ∧
      changes = ParameterChange.ofSteps rules w.parameters (offer.tile.raises?.toList.map (·, 1)) ∧
      w.Reached ⟨{ player with
        tileOffer := none
        resources := player.resources + bonus
        rating := addInt32 player.rating (ParameterChange.rating rules changes) }, changes, w.session,
          w.store.decks⟩ t.1 := by
  obtain ⟨_, s₁, h₁, h⟩ := Steps.bind_eq_ok.mp h
  cases h₁
  obtain ⟨_, s₂, h₂, h⟩ := Steps.bind_eq_ok.mp h
  obtain ⟨u, hu, rfl⟩ := Noted.ofEngine_eq_ok.mp h₂
  obtain ⟨_, s₃, h₃, h₄⟩ := Steps.bind_eq_ok.mp h
  have hopen := update_reached hu (World.Reached.start hp) rfl
  have hpaid := Noted.when_overwrite_reached h₃ hopen rfl fun hc => by
    obtain rfl := (ResourceSet.isZero_iff bonus).mp (by simpa using hc)
    simp only [PlayerField.put, ResourceSet.add_zero]
  exact Noted.applySteps_reached h₄ hpaid rfl rfl

theorem writeTile_level (p : PlayerId) (offer : TileOffer) (c : Coord) :
    Keeps Noted.Level (writeTile p offer c) := by
  refine (Noted.ofEngine_level fun w => (readGame_alike w).level).bind fun game => ?_
  refine (Noted.ofEngine_level fun w => (ofExcept_alike _ w).level).bind fun placed => ?_
  refine (Noted.ofEngine_level (offerNext_level _ _)).bind fun _ => ?_
  refine Keeps.bind_of (Noted.ofEngine_level fun w => (gameId_alike w).level) ?_
  rintro ⟨w, noted⟩ g t hg
  cases hg
  refine Steps.related_bind ?_ fun _ t _ => Std.Refl.refl t
  exact placeTile_level w.game c offer.tile (offer.tile.ownerOf p) w rfl

/-- A placement raises what its tile raises, for the player who places it. -/
theorem writePlacement_posted {player : Player} {offer : TileOffer} {c : Coord} {bonus : ResourceSet}
    {changes : List ParameterChange} {noted : List Change}
    (h : writePlacement rules player offer c bonus (w, []) = (.ok changes, v, noted))
    (hp : w.player? player.id = some player) (g : GameId) :
    World.Posted rules offer.raised (changes.map (·.event g)) w v := by
  rw [writePlacement_eq] at h
  obtain ⟨changes', s, hreward, h⟩ := Steps.bind_eq_ok.mp h
  obtain ⟨_, t, htile, h⟩ := Steps.bind_eq_ok.mp h
  obtain ⟨rfl, rfl⟩ := Steps.pure_eq_ok.mp h
  obtain ⟨hadmits, hch, hx⟩ := writeReward_reached hreward hp
  rw [offer.steps_raised] at hadmits hch
  have hposted := hx.posted hp hch hadmits (by
    show addInt32 player.rating _ = _
    rw [offer.rating_raised, wrapInt32_zero, addInt32_zero]) g
  exact hposted.before ((writeTile_level _ _ _).apply htile : Noted.Level s (v, noted))

/-- What a placement goes through that is not refused: the tile of the offer is written, and the changes, the
bonus and the tile are announced in that order. -/
theorem commitPlacement_ok {c : Coord} {bonus : ResourceSet}
    (h : commitPlacement rules p c w = (.ok (bonus, events), v)) :
    ∃ player offer game u changes noted gained, w.player? p = some player ∧
      player.tileOffer = some offer ∧ c ∈ offer.hexes ∧ w.records.game? w.game = some game ∧
      bonus = ((game.board.hex? c).map (·.bonus)).getD {} ∧ World.Alike w u ∧
      writePlacement rules player offer c bonus (u, []) = (.ok changes, v, noted) ∧
      (∀ e ∈ gained, ∃ b, e = .bonusGained b) ∧
      events = changes.map (·.event v.game) ++ gained ++ [.tilePlaced
        { game := v.game, player := p, tile := offer.tile, coord := c, source := some offer.source }] := by
  obtain ⟨player, x, hplayer, h⟩ := Steps.bind_eq_ok.mp h
  obtain ⟨hp, hx⟩ := readPlayer_ok hplayer
  obtain ⟨offer, _, hpick, h⟩ := Steps.bind_eq_ok.mp h
  obtain ⟨hpicked, rfl⟩ := ofExcept_eq_ok.mp hpick
  obtain ⟨hoffered, hlisted⟩ := TileOffer.pick_ok hpicked
  obtain ⟨game, u, hgame, h⟩ := Steps.bind_eq_ok.mp h
  obtain ⟨hg, hu⟩ := readGame_ok hgame
  rw [show x.records = w.records from hx.store.records, show x.game = w.game from
    congrArg Session.game hx.session] at hg
  obtain ⟨changes, _, hwrite, h⟩ := Steps.bind_eq_ok.mp h
  obtain ⟨_, _, hid, h⟩ := Steps.bind_eq_ok.mp h
  cases hid
  obtain ⟨he, rfl⟩ := Steps.pure_eq_ok.mp h
  obtain ⟨rfl, rfl⟩ := Prod.mk.inj he
  obtain ⟨noted, hwrite⟩ := transact_ok hwrite
  refine ⟨player, offer, game, u, changes, noted, _, hp, hoffered, hlisted, hg, rfl, Trans.trans hx hu,
    hwrite, fun e he => ?_, rfl⟩
  split at he
  · cases he
  · exact ⟨_, List.mem_singleton.mp he⟩

theorem commitPlacement_posted {c : Coord} {bonus : ResourceSet}
    (h : commitPlacement rules p c w = (.ok (bonus, events), v)) :
    ∃ player offer, w.player? p = some player ∧ player.tileOffer = some offer ∧
      World.Posted rules offer.raised events w v := by
  obtain ⟨player, offer, game, u, changes, noted, gained, hp, hoffered, -, -, -, ha, hwrite, hgained,
    rfl⟩ := commitPlacement_ok h
  obtain rfl := World.player?_id hp
  have hposted := writePlacement_posted hwrite ((ha.player? _).trans hp) v.game
  refine ⟨player, offer, hp, hoffered, .after ha.level (.append (.append hposted ?_) ?_)⟩
  · intro e he q
    obtain ⟨b, rfl⟩ := hgained e he
    rfl
  · intro e he q
    obtain rfl := List.mem_singleton.mp he
    rfl

end Engine

end MarsRules
