import MarsRules.Player
import MarsRules.Proofs.Rereading
import MarsRules.Proofs.Substitutes
import MarsRules.Session.Play

/-! Every record, request, ruleset and event is read again from what it is written as. Each writer fits
its reader (`Card.fits`, …), the parts before the whole; the keys that a record leaves out are the ones
whose reader gives the same for a missing key (`Fits.defaulted`, `Fits.optional`, `Fits.listed`). -/

namespace MarsRules

open Json (Fits fields_eq_some record_fits)

theorem termOf?_word {α : Type} {word : α → String} {terms : List α} {w : String} {a : α}
    (h : termOf? word terms w = some a) : termOf? word terms (word a) = some a :=
  (write_termOf? h).symm ▸ h

theorem Location.ofWord_word (l : Location) : ofWord l.word = l := by cases l <;> decide

theorem Location.fits : Fits Location.ofJson? Location.toJson :=
  Json.asTerm?_fits fun _ => congrArg some (ofWord_word _)

theorem CardType.fits : Fits CardType.ofJson? CardType.toJson := Json.asTerm?_fits termOf?_word

theorem Target.fits : Fits Target.ofJson? Target.toJson := Json.asTerm?_fits termOf?_word

theorem TriggerType.fits : Fits TriggerType.ofJson? TriggerType.toJson :=
  Json.asTerm?_fits termOf?_word

theorem TileKind.fits : Fits TileKind.ofJson? TileKind.toJson := Json.asTerm?_fits termOf?_word

theorem GamePhase.fits : Fits GamePhase.ofJson? GamePhase.toJson := Json.asTerm?_fits termOf?_word

theorem Terrain.fits : Fits (Json.asTerm? Terrain.ofWord?) fun t => .string t.word :=
  Json.asTerm?_fits termOf?_word

theorem ForcedState.fits : Fits (Json.asTerm? ForcedState.ofWord?) fun s => .string s.word :=
  Json.asTerm?_fits termOf?_word

theorem ResourceKind.fits : Fits ResourceKind.ofJson? ResourceKind.toJson :=
  Json.asWord?_fits word_ofWord

theorem Tag.fits : Fits Tag.ofJson? Tag.toJson := Json.asWord?_fits word_ofWord

theorem ConditionKind.fits : Fits (Json.asWord? ConditionKind.ofWord) fun k => .string k.word :=
  Json.asWord?_fits word_ofWord

theorem RequirementKind.fits : Fits (Json.asWord? RequirementKind.ofWord) fun k => .string k.word :=
  Json.asWord?_fits word_ofWord

theorem VictoryKind.fits : Fits (Json.asWord? VictoryKind.ofWord) fun k => .string k.word :=
  Json.asWord?_fits word_ofWord

theorem Condition.fits : Fits Condition.ofJson? Condition.toJson :=
  record_fits (by decide) (by simp) fun _ _ _ h _ hg => by
    simp only [↓fields_eq_some, Option.pure_def, Option.some.injEq] at h ⊢
    obtain ⟨_, hkind, _, hlocation, _, htags, _, hresources, rfl⟩ := h
    obtain ⟨kindAt, locationAt, tagsAt, resourcesAt, -⟩ := hg
    exact ⟨_, ConditionKind.fits.required hkind kindAt, _, Location.fits.optional hlocation locationAt,
      _, Tag.fits.listed htags tagsAt, _, ResourceKind.fits.listed hresources resourcesAt, rfl⟩

theorem Trigger.fits : Fits Trigger.ofJson? Trigger.toJson :=
  record_fits (by decide) (by simp) fun _ _ _ h _ hg => by
    simp only [↓fields_eq_some, Option.pure_def, Option.some.injEq] at h ⊢
    obtain ⟨_, htype, _, hcondition, rfl⟩ := h
    obtain ⟨typeAt, conditionAt, -⟩ := hg
    exact ⟨_, TriggerType.fits.required htype typeAt,
      _, Condition.fits.optional hcondition conditionAt, rfl⟩

theorem Scaling.fits : Fits Scaling.ofJson? Scaling.toJson :=
  record_fits (by decide) (by simp) fun _ _ _ h _ hg => by
    simp only [↓fields_eq_some, Option.pure_def, Option.some.injEq] at h ⊢
    obtain ⟨_, hkind, _, hamount, _, hlocation, _, htarget, _, htag, rfl⟩ := h
    obtain ⟨kindAt, amountAt, locationAt, targetAt, tagAt, -⟩ := hg
    exact ⟨_, ResourceKind.fits.required hkind kindAt,
      _, Json.asInt32?_fits.required hamount amountAt,
      _, Location.fits.optional hlocation locationAt, _, Target.fits.optional htarget targetAt,
      _, Tag.fits.optional htag tagAt, rfl⟩

theorem LineItem.fits : Fits LineItem.ofJson? LineItem.toJson :=
  record_fits (by decide) (by simp) fun _ _ _ h _ hg => by
    simp only [↓fields_eq_some, Option.pure_def, Option.some.injEq] at h ⊢
    obtain ⟨_, hkind, _, hamount, _, htarget, _, htags, _, hresources, _, hper, rfl⟩ := h
    obtain ⟨kindAt, amountAt, targetAt, tagsAt, resourcesAt, perAt, -⟩ := hg
    exact ⟨_, ResourceKind.fits.required hkind kindAt,
      _, Json.asInt32?_fits.required hamount amountAt, _, Target.fits.optional htarget targetAt,
      _, Tag.fits.listed htags tagsAt, _, ResourceKind.fits.listed hresources resourcesAt,
      _, Scaling.fits.optional hper perAt, rfl⟩

theorem Choice.fits : Fits Choice.ofJson? Choice.toJson :=
  record_fits (by decide) (by simp) fun _ _ _ h _ hg => by
    simp only [↓fields_eq_some, Option.pure_def, Option.some.injEq] at h ⊢
    obtain ⟨_, hinputs, _, houtputs, rfl⟩ := h
    obtain ⟨inputsAt, outputsAt, -⟩ := hg
    exact ⟨_, LineItem.fits.listed hinputs inputsAt, _, LineItem.fits.listed houtputs outputsAt,
      rfl⟩

theorem Behavior.fits : Fits Behavior.ofJson? Behavior.toJson :=
  record_fits (by decide) (by simp) fun _ _ _ h _ hg => by
    simp only [↓fields_eq_some, Option.pure_def, Option.some.injEq] at h ⊢
    obtain ⟨_, htriggers, _, hinputs, _, houtputs, _, hchoices, rfl⟩ := h
    obtain ⟨triggersAt, inputsAt, outputsAt, choicesAt, -⟩ := hg
    exact ⟨_, Trigger.fits.listed htriggers triggersAt, _, LineItem.fits.listed hinputs inputsAt,
      _, LineItem.fits.listed houtputs outputsAt, _, Choice.fits.listed hchoices choicesAt, rfl⟩

theorem Requirement.fits : Fits Requirement.ofJson? Requirement.toJson :=
  record_fits (by decide) (by simp) fun _ _ _ h _ hg => by
    simp only [↓fields_eq_some, Option.pure_def, Option.some.injEq] at h ⊢
    obtain ⟨_, hkind, _, hmin, _, hmax, _, hlocation, _, htag, _, hresource, rfl⟩ := h
    obtain ⟨kindAt, minAt, maxAt, locationAt, tagAt, resourceAt, -⟩ := hg
    exact ⟨_, RequirementKind.fits.required hkind kindAt,
      _, Json.asInt32?_fits.optional hmin minAt, _, Json.asInt32?_fits.optional hmax maxAt,
      _, Location.fits.optional hlocation locationAt, _, Tag.fits.optional htag tagAt,
      _, ResourceKind.fits.optional hresource resourceAt, rfl⟩

theorem VictoryPoints.fits : Fits VictoryPoints.ofJson? VictoryPoints.toJson :=
  record_fits (by decide) (by simp) fun _ _ _ h _ hg => by
    simp only [↓fields_eq_some, Option.pure_def, Option.some.injEq] at h ⊢
    obtain ⟨_, hamount, _, hkind, _, hmaxTrigger, _, hper, rfl⟩ := h
    obtain ⟨amountAt, kindAt, maxTriggerAt, perAt, -⟩ := hg
    exact ⟨_, Json.asInt32?_fits.required hamount amountAt,
      _, VictoryKind.fits.required hkind kindAt,
      _, Json.asInt32?_fits.optional hmaxTrigger maxTriggerAt, _, Scaling.fits.optional hper perAt,
      rfl⟩

theorem TokenPool.fits : Fits TokenPool.ofJson? TokenPool.toJson :=
  record_fits (by decide) (by simp) fun _ _ _ h _ hg => by
    simp only [↓fields_eq_some, Option.pure_def, Option.some.injEq] at h ⊢
    obtain ⟨_, hkind, _, hcapacity, _, hstarting, rfl⟩ := h
    obtain ⟨kindAt, capacityAt, startingAt, -⟩ := hg
    exact ⟨_, ResourceKind.fits.required hkind kindAt,
      _, Json.asInt32?_fits.optional hcapacity capacityAt,
      _, Json.asInt32?_fits.defaulted rfl hstarting startingAt, rfl⟩

theorem Card.fits : Fits Card.ofJson? Card.toJson :=
  record_fits (by decide) (by simp [fieldNames]) fun _ _ _ h _ hg => by
    simp only [↓fields_eq_some, Option.pure_def, Option.some.injEq] at h ⊢
    obtain ⟨_, hid, _, hname, _, htype, _, hcost, _, hdescription, _, htags, _, hrequirements, _,
      hbehaviors, _, hvictoryPoints, _, hstorage, rfl⟩ := h
    obtain ⟨idAt, nameAt, typeAt, costAt, descriptionAt, tagsAt, requirementsAt, behaviorsAt,
      victoryPointsAt, storageAt, -⟩ := hg
    exact ⟨_, Json.asText?_fits.required hid idAt, _, Json.asText?_fits.required hname nameAt,
      _, CardType.fits.required htype typeAt, _, Json.asInt32?_fits.defaulted rfl hcost costAt,
      _, Json.asText?_fits.defaulted rfl hdescription descriptionAt,
      _, Tag.fits.listed_always htags tagsAt,
      _, Requirement.fits.listed_always hrequirements requirementsAt,
      _, Behavior.fits.listed_always hbehaviors behaviorsAt,
      _, VictoryPoints.fits.listed_always hvictoryPoints victoryPointsAt,
      _, TokenPool.fits.optional hstorage storageAt, rfl⟩

theorem ResourceSet.fits : Fits ResourceSet.ofJson? ResourceSet.toJson := by
  show Fits ofJson? fun s => .record [
    .always "credits" (.int s.credits), .always "steel" (.int s.steel),
    .always "titanium" (.int s.titanium), .always "plants" (.int s.plants),
    .always "energy" (.int s.energy), .always "heat" (.int s.heat)]
  exact record_fits (by decide) (by simp [fieldNames, BaseResource.all, BaseResource.word])
    fun _ _ _ h _ hg => by
    simp only [↓fields_eq_some, Option.pure_def, Option.some.injEq] at h ⊢
    obtain ⟨_, hcredits, _, hsteel, _, htitanium, _, hplants, _, henergy, _, hheat, rfl⟩ := h
    obtain ⟨creditsAt, steelAt, titaniumAt, plantsAt, energyAt, heatAt, -⟩ := hg
    exact ⟨_, Json.asInt32?_fits.required hcredits creditsAt,
      _, Json.asInt32?_fits.required hsteel steelAt,
      _, Json.asInt32?_fits.required htitanium titaniumAt,
      _, Json.asInt32?_fits.required hplants plantsAt,
      _, Json.asInt32?_fits.required henergy energyAt, _, Json.asInt32?_fits.required hheat heatAt,
      rfl⟩

theorem CardAction.fits : Fits CardAction.ofJson? CardAction.toJson :=
  record_fits (by decide) (by simp) fun _ _ _ h _ hg => by
    simp only [↓fields_eq_some, Option.pure_def, Option.some.injEq] at h ⊢
    obtain ⟨_, hcard, _, hname, _, hindex, _, hbehavior, _, hplays, rfl⟩ := h
    obtain ⟨cardAt, nameAt, indexAt, behaviorAt, playsAt, -⟩ := hg
    exact ⟨_, Json.asText?_fits.required hcard cardAt, _, Json.asText?_fits.required hname nameAt,
      _, (Json.asNat?_fits maxNat64).required hindex indexAt,
      _, Behavior.fits.required hbehavior behaviorAt,
      _, (Json.asNat?_fits maxNat32).required hplays playsAt, rfl⟩

theorem CardEffect.fits : Fits CardEffect.ofJson? CardEffect.toJson :=
  record_fits (by decide) (by simp) fun _ _ _ h _ hg => by
    simp only [↓fields_eq_some, Option.pure_def, Option.some.injEq] at h ⊢
    obtain ⟨_, hcard, _, hname, _, hindex, _, hbehavior, rfl⟩ := h
    obtain ⟨cardAt, nameAt, indexAt, behaviorAt, -⟩ := hg
    exact ⟨_, Json.asText?_fits.required hcard cardAt, _, Json.asText?_fits.required hname nameAt,
      _, (Json.asNat?_fits maxNat64).required hindex indexAt,
      _, Behavior.fits.required hbehavior behaviorAt, rfl⟩

theorem ForcedAction.fits : Fits ForcedAction.ofJson? ForcedAction.toJson :=
  record_fits (by decide) (by simp) fun _ _ _ h hn hg => by
    simp only [↓fields_eq_some, Option.pure_def, Option.some.injEq] at h ⊢
    obtain ⟨_, hcorporation, _, hkind, _, hdescription, _, hstate, _, hsource, rfl⟩ := h
    obtain ⟨corporationAt, kindAt, descriptionAt, stateAt, sourceAt, -⟩ := hg
    exact ⟨_, Json.asText?_fits.required hcorporation corporationAt,
      _, ResourceKind.fits.required hkind kindAt,
      _, Json.asText?_fits.required hdescription descriptionAt,
      _, ForcedState.fits.required hstate stateAt,
      _, Json.asText?_fits.nullable hsource hn sourceAt, rfl⟩

theorem Coord.fits : Fits Coord.ofJson? Coord.toJson :=
  record_fits (by decide) (by simp) fun _ _ _ h _ hg => by
    simp only [↓fields_eq_some, Option.pure_def, Option.some.injEq] at h ⊢
    obtain ⟨_, hq, _, hr, _, hs, rfl⟩ := h
    obtain ⟨qAt, rAt, sAt, -⟩ := hg
    exact ⟨_, Json.asInt32?_fits.required hq qAt, _, Json.asInt32?_fits.required hr rAt,
      _, Json.asInt32?_fits.required hs sAt, rfl⟩

theorem TileOffer.fits : Fits TileOffer.ofJson? TileOffer.toJson :=
  record_fits (by decide) (by simp) fun _ _ _ h _ hg => by
    simp only [↓fields_eq_some, Option.pure_def, Option.some.injEq] at h ⊢
    obtain ⟨_, htile, _, hhexes, _, hsource, rfl⟩ := h
    obtain ⟨tileAt, hexesAt, sourceAt, -⟩ := hg
    exact ⟨_, TileKind.fits.required htile tileAt,
      _, (Json.asList?_fits Coord.fits).required hhexes hexesAt,
      _, Json.asText?_fits.required hsource sourceAt, rfl⟩

theorem DrawOffer.fits : Fits DrawOffer.ofJson? DrawOffer.toJson :=
  record_fits (by decide) (by simp) fun _ _ _ h _ hg => by
    simp only [↓fields_eq_some, Option.pure_def, Option.some.injEq] at h ⊢
    obtain ⟨_, hcards, _, hfree, _, hmaxBought, _, hprice, _, hsource, rfl⟩ := h
    obtain ⟨cardsAt, freeAt, maxBoughtAt, priceAt, sourceAt, -⟩ := hg
    exact ⟨_, (Json.asList?_fits Json.asText?_fits).required hcards cardsAt,
      _, (Json.asNat?_fits maxNat32).required hfree freeAt,
      _, (Json.asNat?_fits maxNat32).required hmaxBought maxBoughtAt,
      _, Json.asInt32?_fits.required hprice priceAt,
      _, Json.asText?_fits.required hsource sourceAt, rfl⟩

theorem TileQueue.fits : Fits TileQueue.ofJson? TileQueue.toJson :=
  record_fits (by decide) (by simp) fun _ _ _ h _ hg => by
    simp only [↓fields_eq_some, Option.pure_def, Option.some.injEq] at h ⊢
    obtain ⟨_, hsource, _, htiles, rfl⟩ := h
    obtain ⟨sourceAt, tilesAt, -⟩ := hg
    exact ⟨_, Json.asText?_fits.required hsource sourceAt,
      _, (Json.asList?_fits TileKind.fits).required htiles tilesAt, rfl⟩

theorem Player.fits : Fits Player.ofJson? Player.toJson :=
  record_fits (by decide) (by simp [fieldNames]) fun _ _ _ h hn hg => by
    simp only [↓fields_eq_some, Option.pure_def, Option.some.injEq] at h ⊢
    obtain ⟨_, hid, _, hname, _, hcorporation, _, hhand, _, hplayed, _, hresources, _, hproduction,
      _, hrating, _, hpoints, _, hactions, _, heffects, _, hstorage, _, hforced, _, htileOffer, _,
      hdrawOffer, _, hqueue, rfl⟩ := h
    obtain ⟨idAt, nameAt, corporationAt, handAt, playedAt, resourcesAt, productionAt, ratingAt,
      pointsAt, actionsAt, effectsAt, storageAt, forcedAt, tileOfferAt, drawOfferAt, queueAt,
      -⟩ := hg
    exact ⟨_, Json.asText?_fits.required hid idAt, _, Json.asText?_fits.required hname nameAt,
      _, Json.asText?_fits.nullable hcorporation hn corporationAt,
      _, (Json.asList?_fits Json.asText?_fits).required hhand handAt,
      _, (Json.asList?_fits Json.asText?_fits).required hplayed playedAt,
      _, ResourceSet.fits.required hresources resourcesAt,
      _, ResourceSet.fits.required hproduction productionAt,
      _, Json.asInt32?_fits.required hrating ratingAt,
      _, Json.asInt32?_fits.required hpoints pointsAt,
      _, (Json.asList?_fits CardAction.fits).required hactions actionsAt,
      _, (Json.asList?_fits CardEffect.fits).required heffects effectsAt,
      _, (Json.asTable?_fits Json.asInt32?_fits).required hstorage storageAt,
      _, ForcedAction.fits.nullable hforced hn forcedAt,
      _, TileOffer.fits.nullable htileOffer hn tileOfferAt,
      _, DrawOffer.fits.nullable hdrawOffer hn drawOfferAt,
      _, TileQueue.fits.nullable hqueue hn queueAt, rfl⟩

theorem Occupant.fits : Fits Occupant.ofJson? Occupant.toJson :=
  record_fits (by decide) (by simp) fun _ _ _ h hn hg => by
    simp only [↓fields_eq_some, Option.pure_def, Option.some.injEq] at h ⊢
    obtain ⟨_, htile, _, howner, rfl⟩ := h
    obtain ⟨tileAt, ownerAt, -⟩ := hg
    exact ⟨_, TileKind.fits.required htile tileAt, _, Json.asText?_fits.nullable howner hn ownerAt,
      rfl⟩

theorem Hex.fits : Fits Hex.ofJson? Hex.toJson :=
  record_fits (by decide) (by simp) fun _ _ _ h hn hg => by
    simp only [↓fields_eq_some, Option.pure_def, Option.some.injEq] at h ⊢
    obtain ⟨_, hcoord, _, hterrain, _, hoccupant, _, hbonus, rfl⟩ := h
    obtain ⟨coordAt, terrainAt, occupantAt, bonusAt, -⟩ := hg
    exact ⟨_, Coord.fits.required hcoord coordAt, _, Terrain.fits.required hterrain terrainAt,
      _, Occupant.fits.nullable hoccupant hn occupantAt,
      _, ResourceSet.fits.defaulted rfl hbonus bonusAt, rfl⟩

theorem Board.fits : Fits Board.ofJson? Board.toJson :=
  record_fits (by decide) (by simp) fun _ _ _ h _ hg => by
    simp only [↓fields_eq_some, Option.pure_def, Option.some.injEq] at h ⊢
    obtain ⟨_, hhexes, rfl⟩ := h
    obtain ⟨hexesAt, -⟩ := hg
    exact ⟨_, (Json.asList?_fits Hex.fits).required hhexes hexesAt, rfl⟩

theorem ParameterRange.fits : Fits ParameterRange.ofJson? ParameterRange.toJson :=
  record_fits (by decide) (by simp) fun _ _ _ h _ hg => by
    simp only [↓fields_eq_some, Option.pure_def, Option.some.injEq] at h ⊢
    obtain ⟨_, hmin, _, hmax, _, hstep, rfl⟩ := h
    obtain ⟨minAt, maxAt, stepAt, -⟩ := hg
    exact ⟨_, Json.asInt32?_fits.required hmin minAt, _, Json.asInt32?_fits.required hmax maxAt,
      _, Json.asInt32?_fits.required hstep stepAt, rfl⟩

theorem Rules.fits : Fits Rules.ofJson? Rules.toJson :=
  record_fits (by decide) (by simp [fieldNames]) fun _ _ _ h _ hg => by
    simp only [↓fields_eq_some, Option.pure_def, Option.some.injEq] at h ⊢
    obtain ⟨_, htemperature, _, hoxygen, _, hoceans, _, hsteelValue, _, htitaniumValue, _,
      hminCreditsProduction, _, hminOtherProduction, _, hratingPerStep, rfl⟩ := h
    obtain ⟨temperatureAt, oxygenAt, oceansAt, steelValueAt, titaniumValueAt,
      minCreditsProductionAt, minOtherProductionAt, ratingPerStepAt, -⟩ := hg
    exact ⟨_, ParameterRange.fits.defaulted rfl htemperature temperatureAt,
      _, ParameterRange.fits.defaulted rfl hoxygen oxygenAt,
      _, ParameterRange.fits.defaulted rfl hoceans oceansAt,
      _, Json.asInt32?_fits.defaulted rfl hsteelValue steelValueAt,
      _, Json.asInt32?_fits.defaulted rfl htitaniumValue titaniumValueAt,
      _, Json.asInt32?_fits.defaulted rfl hminCreditsProduction minCreditsProductionAt,
      _, Json.asInt32?_fits.defaulted rfl hminOtherProduction minOtherProductionAt,
      _, Json.asBool?_fits.defaulted rfl hratingPerStep ratingPerStepAt, rfl⟩

theorem ParameterChanged.fits : Fits ParameterChanged.ofJson? ParameterChanged.toJson :=
  record_fits (by decide) (by simp) fun _ _ _ h _ hg => by
    simp only [↓fields_eq_some, Option.pure_def, Option.some.injEq] at h ⊢
    obtain ⟨_, hgame, _, hbefore, _, hafter, rfl⟩ := h
    obtain ⟨gameAt, beforeAt, afterAt, -⟩ := hg
    exact ⟨_, Json.asText?_fits.required hgame gameAt,
      _, Json.asInt32?_fits.required hbefore beforeAt,
      _, Json.asInt32?_fits.required hafter afterAt, rfl⟩

theorem TilePlaced.fits : Fits TilePlaced.ofJson? TilePlaced.toJson :=
  record_fits (by decide) (by simp) fun _ _ _ h hn hg => by
    simp only [↓fields_eq_some, Option.pure_def, Option.some.injEq] at h ⊢
    obtain ⟨_, hgame, _, hplayer, _, htile, _, hcoord, _, hsource, rfl⟩ := h
    obtain ⟨gameAt, playerAt, tileAt, coordAt, sourceAt, -⟩ := hg
    exact ⟨_, Json.asText?_fits.required hgame gameAt,
      _, Json.asText?_fits.required hplayer playerAt, _, TileKind.fits.required htile tileAt,
      _, Coord.fits.required hcoord coordAt, _, Json.asText?_fits.nullable hsource hn sourceAt,
      rfl⟩

theorem PhaseChanged.fits : Fits PhaseChanged.ofJson? PhaseChanged.toJson :=
  record_fits (by decide) (by simp) fun _ _ _ h _ hg => by
    simp only [↓fields_eq_some, Option.pure_def, Option.some.injEq] at h ⊢
    obtain ⟨_, hgame, _, hbefore, _, hafter, rfl⟩ := h
    obtain ⟨gameAt, beforeAt, afterAt, -⟩ := hg
    exact ⟨_, Json.asText?_fits.required hgame gameAt, _, GamePhase.fits.required hbefore beforeAt,
      _, GamePhase.fits.required hafter afterAt, rfl⟩

theorem DrawConfirmed.fits : Fits DrawConfirmed.ofJson? DrawConfirmed.toJson :=
  record_fits (by decide) (by simp) fun _ _ _ h _ hg => by
    simp only [↓fields_eq_some, Option.pure_def, Option.some.injEq] at h ⊢
    obtain ⟨_, hgame, _, hplayer, _, hsource, _, hcards, rfl⟩ := h
    obtain ⟨gameAt, playerAt, sourceAt, cardsAt, -⟩ := hg
    exact ⟨_, Json.asText?_fits.required hgame gameAt,
      _, Json.asText?_fits.required hplayer playerAt,
      _, Json.asText?_fits.required hsource sourceAt,
      _, (Json.asList?_fits Json.asText?_fits).required hcards cardsAt, rfl⟩

theorem CardPlayed.fits : Fits CardPlayed.ofJson? CardPlayed.toJson :=
  record_fits (by decide) (by simp) fun _ _ _ h _ hg => by
    simp only [↓fields_eq_some, Option.pure_def, Option.some.injEq] at h ⊢
    obtain ⟨_, hgame, _, hplayer, _, hcard, _, hname, _, htype, _, htags, rfl⟩ := h
    obtain ⟨gameAt, playerAt, cardAt, nameAt, typeAt, tagsAt, -⟩ := hg
    exact ⟨_, Json.asText?_fits.required hgame gameAt,
      _, Json.asText?_fits.required hplayer playerAt, _, Json.asText?_fits.required hcard cardAt,
      _, Json.asText?_fits.required hname nameAt, _, CardType.fits.required htype typeAt,
      _, (Json.asList?_fits Tag.fits).required htags tagsAt, rfl⟩

theorem BonusGained.fits : Fits BonusGained.ofJson? BonusGained.toJson :=
  record_fits (by decide) (by simp) fun _ _ _ h _ hg => by
    simp only [↓fields_eq_some, Option.pure_def, Option.some.injEq] at h ⊢
    obtain ⟨_, hgame, _, hplayer, _, hresources, _, hcoord, rfl⟩ := h
    obtain ⟨gameAt, playerAt, resourcesAt, coordAt, -⟩ := hg
    exact ⟨_, Json.asText?_fits.required hgame gameAt,
      _, Json.asText?_fits.required hplayer playerAt,
      _, ResourceSet.fits.required hresources resourcesAt, _, Coord.fits.required hcoord coordAt,
      rfl⟩

theorem EventKind.ofWord?_word (k : EventKind) : ofWord? k.word = some k := by
  cases k with
  | parameterChanged p => cases p <;> decide
  | tilePlaced | phaseChanged | drawConfirmed | cardPlayed | bonusGained => decide

/-- Only the reader of its own kind reads the body of an event. -/
theorem Event.ofBody?_body {k : EventKind} {j : Json} {e : Event} (h : ofBody? k j = some e) :
    e.kind = k ∧ ofBody? k e.body = some e := by
  cases k <;>
    obtain ⟨x, hx, rfl⟩ := Option.map_eq_some_iff.mp h <;>
    refine ⟨rfl, Option.map_eq_some_iff.mpr ⟨x, ?_, rfl⟩⟩
  · exact ParameterChanged.fits.reread hx
  · exact TilePlaced.fits.reread hx
  · exact PhaseChanged.fits.reread hx
  · exact DrawConfirmed.fits.reread hx
  · exact CardPlayed.fits.reread hx
  · exact BonusGained.fits.reread hx

theorem Event.fits : Fits Event.ofJson? Event.toJson := by
  refine ⟨fun {j e} h => ?_, fun _ => nofun⟩
  unfold ofJson? at h
  split at h
  · next w body =>
    obtain ⟨k, hk, he⟩ := Option.bind_eq_some_iff.mp h
    obtain ⟨rfl, hbody⟩ := ofBody?_body he
    exact Option.bind_eq_some_iff.mpr ⟨e.kind, EventKind.ofWord?_word _, hbody⟩
  · cases h

namespace Payment

/-- Substitutes that were read from a table are read again from the table they are written as. -/
theorem asTable?_table {t : Table Int} (ht : ∀ row ∈ t, ∃ j, Json.asInt32? j = some row.2) :
    Json.asTable? Json.asInt32? (.object ((ofTable t).map fun (k, n) => (k.word, .int n))) =
      some (table (ofTable t)) := by
  have hkeys : (table (ofTable t)).keys.Nodup :=
    nodup_keys_table (inOrder_ofTable t) fun x hx => (mem_ofTable hx).1
  have hread : ∀ row ∈ table (ofTable t), Json.asInt32? (.int row.2) = some row.2 := by
    intro _ hrow
    obtain ⟨x, hx, rfl⟩ := List.mem_map.mp hrow
    obtain ⟨row, hrow, heq⟩ := (mem_ofTable hx).2
    exact (ht row hrow).elim fun _ hj => Json.asInt32?_fits.reread (heq ▸ hj)
  rw [← Json.asTable?_rows hkeys hread]
  unfold table
  rw [List.map_map]
  rfl

/-- Substitutes are left out if there are none. -/
theorem substitutes_reread {g : Json.Fields} {rows : List (ResourceKind × Int)}
    (h : Json.asTable? Json.asInt32? (.object (rows.map fun (k, n) => (k.word, .int n))) =
      some (table rows))
    (hg : g.find? "substitutes" = Json.Entry.held (if rows.isEmpty then none
      else some ("substitutes", .object (rows.map fun (k, n) => (k.word, .int n))))) :
    g.defaulted "substitutes" [] (Json.asTable? Json.asInt32?) = some (table rows) := by
  unfold Json.Fields.defaulted
  rw [hg]
  cases rows with
  | nil => rfl
  | cons row rest => exact h

theorem fits : Fits Payment.ofJson? Payment.toJson := by
  refine record_fits (by decide) (fun p => ?_) fun f g p h _ hg => ?_
  · refine .cons (by simp) (.cons (by simp) (.cons (by simp) (.cons ?_ .nil)))
    split <;> simp [Json.Entry.Under]
  · simp only [↓fields_eq_some, Option.pure_def, Option.some.injEq] at h ⊢
    obtain ⟨t, ht, _, hcredits, _, hsteel, _, htitanium, rfl⟩ := h
    obtain ⟨creditsAt, steelAt, titaniumAt, substitutesAt, -⟩ := hg
    have hrows : ∀ row ∈ t, ∃ j, Json.asInt32? j = some row.2 := by
      unfold Json.Fields.defaulted at ht
      split at ht
      · exact (Json.asTable?_keys ht).2
      · cases ht
        simp
    have hagain : ofTable (table (ofTable t)) = ofTable t :=
      ofTable_table (inOrder_ofTable t) fun x hx => (mem_ofTable hx).1
    exact ⟨_, substitutes_reread (asTable?_table hrows) substitutesAt,
      _, Json.asInt32?_fits.defaulted rfl hcredits creditsAt,
      _, Json.asInt32?_fits.defaulted rfl hsteel steelAt,
      _, Json.asInt32?_fits.defaulted rfl htitanium titaniumAt, congrArg _ hagain⟩

end Payment

theorem PlayRequest.fits : Fits PlayRequest.ofJson? PlayRequest.toJson :=
  record_fits (by decide) (by simp) fun _ _ _ h _ hg => by
    simp only [↓fields_eq_some, Option.pure_def, Option.some.injEq] at h ⊢
    obtain ⟨_, hcard, _, hpayment, _, hchoice, _, htarget, rfl⟩ := h
    obtain ⟨cardAt, paymentAt, choiceAt, targetAt, -⟩ := hg
    exact ⟨_, Json.asText?_fits.required hcard cardAt, _, Payment.fits.defaulted rfl hpayment paymentAt,
      _, (Json.asNat?_fits maxNat64).optional_null hchoice choiceAt, _,
      Json.asText?_fits.optional_null htarget targetAt, rfl⟩

/-- Whatever is read is read again, and the same, from what it is written as. -/
theorem written_rereads :
    (∀ j c, Card.ofJson? j = some c → Card.ofJson? c.toJson = some c) ∧
    (∀ j p, Player.ofJson? j = some p → Player.ofJson? p.toJson = some p) ∧
    (∀ j b, Board.ofJson? j = some b → Board.ofJson? b.toJson = some b) ∧
    (∀ j r, PlayRequest.ofJson? j = some r → PlayRequest.ofJson? r.toJson = some r) ∧
    (∀ j r, Rules.ofJson? j = some r → Rules.ofJson? r.toJson = some r) ∧
    (∀ j e, Event.ofJson? j = some e → Event.ofJson? e.toJson = some e) :=
  ⟨fun _ _ => Card.fits.reread, fun _ _ => Player.fits.reread, fun _ _ => Board.fits.reread,
    fun _ _ => PlayRequest.fits.reread, fun _ _ => Rules.fits.reread, fun _ _ => Event.fits.reread⟩

namespace Sample

def liftJson : Json := .object [("extra", .bool true), ("name", .string "Lunar Lift"),
  ("id", .string "lift"), ("type", .object [("event", .null)]), ("tags", .array [.string "moon"]),
  ("resourceStorage", .null),
  ("behaviors", .array [.object [("triggers", .array [.array [.string "auto",
    .object [("type", .string "moonrise"), ("location", .string "far-side")]]])]])]

def lift : Card where
  id := "lift"
  name := "Lunar Lift"
  type := .event
  tags := [.unknown "moon"]
  behaviors := [.passive { kind := .unknown "moonrise", location := some .other } []]

def ownerJson : Json := .object [("id", .string "p1"), ("name", .string "p1"),
  ("cards", .array []), ("playedCards", .array [.string "lift"]),
  ("resources", .array [.int 5, .int 0, .int 0, .int 0, .int 0, .int 0]),
  ("production", .array [.int (-1), .int 0, .int 0, .int 0, .int 0, .int 0]),
  ("terraformRating", .int 20), ("victoryPoints", .int 0), ("actions", .array []),
  ("effects", .array []), ("resourceStorage", .object [("lift", .int 1), ("lift", .int 2)]),
  ("tileQueue", .null)]

def owner : Player where
  id := "p1"
  name := "p1"
  played := ["lift"]
  resources := { credits := 5 }
  production := { credits := -1 }
  storage := [("lift", 2)]

def islandJson : Json := .array [.array [.array [.array [.int 0, .int 0, .int 0],
  .string "ocean-reserved", .array [.string "ocean", .null]]]]

def island : Board :=
  ⟨[{ coord := ⟨0, 0, 0⟩, terrain := .oceanReserved, occupant := some ⟨.ocean, none⟩ }]⟩

def offerJson : Json := .object [("cardId", .string "lift"), ("payment", .object [("substitutes",
  .object [("moon-dust", .int 1), ("heat", .int 2), ("steel", .int 3), ("heat", .int 4)])])]

def offer : PlayRequest where
  card := "lift"
  payment :=
    { substitutes := [(.resource .steel, 3), (.resource .heat, 4), (.unknown "moon-dust", 1)] }

def landing : Event :=
  .tilePlaced { game := "g1", player := "p1", tile := .ocean, coord := ⟨0, 0, 0⟩, source := none }

def landingJson : Json := .object [("TilePlaced", .object [("game_id", .string "g1"),
  ("player_id", .string "p1"), ("tile", .string "ocean"), ("coord", .array [.int 0, .int 0, .int 0])])]

end Sample

open Sample in
/-- Unknown words, fields left out, null or given as lists, and repeated keys. -/
theorem written_rereads_sample :
    (Card.ofJson? liftJson = some lift ∧ Card.ofJson? lift.toJson = some lift) ∧
    (Player.ofJson? ownerJson = some owner ∧ Player.ofJson? owner.toJson = some owner) ∧
    (Board.ofJson? islandJson = some island ∧ Board.ofJson? island.toJson = some island) ∧
    (PlayRequest.ofJson? offerJson = some offer ∧ PlayRequest.ofJson? offer.toJson = some offer) ∧
    (Rules.ofJson? (.array []) = some {} ∧ Rules.ofJson? (Rules.toJson {}) = some {}) ∧
    (Event.ofJson? landingJson = some landing ∧ Event.ofJson? landing.toJson = some landing) := by
  obtain ⟨hcard, hplayer, hboard, hrequest, hrules, hevent⟩ := written_rereads
  have hlift : Card.ofJson? liftJson = some lift := by decide +kernel
  have howner : Player.ofJson? ownerJson = some owner := by decide +kernel
  have hisland : Board.ofJson? islandJson = some island := by decide +kernel
  have hoffer : PlayRequest.ofJson? offerJson = some offer := by decide +kernel
  have hnone : Rules.ofJson? (.array []) = some {} := by decide +kernel
  have hlanding : Event.ofJson? landingJson = some landing := by decide +kernel
  exact ⟨⟨hlift, hcard _ _ hlift⟩, ⟨howner, hplayer _ _ howner⟩, ⟨hisland, hboard _ _ hisland⟩,
    ⟨hoffer, hrequest _ _ hoffer⟩, ⟨hnone, hrules _ _ hnone⟩, ⟨hlanding, hevent _ _ hlanding⟩⟩

end MarsRules
