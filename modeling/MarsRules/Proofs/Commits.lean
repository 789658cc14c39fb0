import MarsRules.Proofs.Placement
import MarsRules.Proofs.Solvency
import MarsRules.Proofs.Triggering

/-! What the writes of a request do to the desk of its player, before anything is announced. Where they
are refused the desks are as they were, and so is the deck unless the offer for the drawn cards could
not be written. -/

namespace MarsRules

open Steps (Keeps)

/-- Cards leave the deck only where the offer of them cannot be written. -/
def World.Spares (w v : World) : Prop := Spends (w.store.MayFail (Write.drawOffer : Call)) w v

namespace World.Spares

variable {w v u : World}

theorem of_spends (h : Spends False w v) : Spares w v := h.mono False.elim

theorem after (h : Spends False w v) (h' : Spares v u) : Spares w u :=
  (h.mono False.elim).trans (h'.mono (h.outages _))

end World.Spares

theorem transact_spares {α : Type} {drop : Dropping Session} {steps : Noted α} {w v : World} {stop : Stop}
    (h : transact drop steps w = (.error stop, v))
    (hs : ∀ stop t, steps (w, []) = (.error stop, t) → w.Spares t.1) : w.Spares v := by
  have hspent : World.Spares w (transact drop steps w).2 := by
    refine transact_spends_of ?_
    rcases hrun : steps (w, []) with ⟨stop' | a, t⟩
    · exact hs stop' t hrun
    · simp [transact, hrun] at h
  rwa [h] at hspent

namespace Plan

variable {plan : Plan} {rules : Rules} {w v u : World} {x : Position} {s t : World × List Change}
  {stop : Stop}

open Noted

theorem writeDraw_spares {y z : Player} (h : plan.writeDraw y s = (.error stop, t))
    (hz : s.1.player? y.id = some z) : s.1.Spares t.1 := by
  have hspent := (writeDraw_spends plan y).apply h
  unfold writeDraw at h
  cases hn : plan.draw != 0 <;> rw [hn] at h
  · cases h
  rcases Steps.bind_eq_error.mp h with h | ⟨_, s₁, hgame, h⟩
  · cases h
  cases hgame
  rcases Steps.bind_eq_error.mp h with h | ⟨cards, s₂, hdraw, h⟩
  · obtain ⟨v, hv, rfl⟩ := ofEngine_eq.mp (show ofEngine _ (s.1, s.2) = _ from h)
    exact .of_spends (Engine.drawCards_error hv)
  · -- the cards are drawn, and the offer of them is not written
    obtain ⟨v, hv, rfl⟩ := ofEngine_eq_ok.mp (show ofEngine _ (s.1, s.2) = _ from hdraw)
    obtain ⟨-, hdeals, hthere⟩ := Engine.drawCards_deals hv hz
    rcases Steps.bind_eq_error.mp h with h | ⟨_, s₃, hnote, h⟩
    · cases h
    cases hnote
    obtain ⟨u, hu, rfl⟩ := ofEngine_eq.mp h
    exact hspent.mono fun _ => hdeals.outages _ (Engine.update_mayFail hu hthere)

theorem write_spares (h : plan.write rules true s = (.error stop, t)) (hx : w.Reached x s.1)
    (hp : plan.player = x.player.id) (hc : x.changes = []) : s.1.Spares t.1 := by
  obtain ⟨board, hb⟩ := w.exists_playsOn
  rcases Steps.bind_eq_error.mp h with h | ⟨player, s₁, hplayer, h⟩
  · exact .of_spends ((ofEngine_spends (Engine.readPlayer_spends _)).apply h)
  refine .after ((ofEngine_spends (Engine.readPlayer_spends _)).apply hplayer) ?_
  obtain ⟨v, hv, rfl⟩ := ofEngine_eq_ok.mp (show ofEngine _ (s.1, s.2) = _ from hplayer)
  obtain ⟨hplayer, ha⟩ := Engine.readPlayer_ok hv
  obtain rfl : x.player = player := Option.some.inj (hx.player?.symm.trans (hp ▸ hplayer))
  rcases Steps.bind_eq_error.mp h with h | ⟨_, s₂, hrecord, h⟩
  · exact .of_spends ((writeRecord_spends plan _ true).apply h)
  refine .after ((writeRecord_spends plan _ true).apply hrecord) ?_
  obtain ⟨actions, -, h₁⟩ := writeRecord_reached hrecord (hx.alike ha) hp hb
  have hid : x.player.id = (plan.record board x.player).id := by rw [record_eq]; rfl
  rcases Steps.bind_eq_error.mp h with h | ⟨changes, s₃, hsteps, h⟩
  · exact .of_spends ((applySteps_spends rules _ _).apply h)
  refine .after ((applySteps_spends rules _ _).apply hsteps) ?_
  obtain ⟨-, -, h₂⟩ := applySteps_reached hsteps h₁ (hp.trans hid) hc
  rcases Steps.bind_eq_error.mp h with h | ⟨_, s₄, -, h⟩
  · exact writeDraw_spares h (by rw [hid]; exact h₂.player?)
  · cases h

theorem commit_spares (h : plan.commit rules true v = (.error stop, u)) (hx : w.Reached x v)
    (hp : plan.player = x.player.id) (hc : x.changes = []) : v.Spares u := by
  rcases Steps.bind_eq_error.mp h with h | ⟨changes, u, -, h⟩
  · exact transact_spares h fun stop t hwrite => write_spares hwrite hx hp hc
  · rcases Steps.bind_eq_error.mp h with h | ⟨_, _, _, h⟩ <;> cases h

end Plan

namespace Engine

variable {book : Rulebook} {rules : Rules} {p : PlayerId} {w v u : World} {x : Position} {stop : Stop}
  {card : Card} {choice : Option Nat} {target : Option CardId} {r : PlayRequest} {events : List Event}

theorem commitCard_spares (h : commitCard rules p card choice target v = (.error stop, u))
    (hx : w.Reached x v) (hp : p = x.player.id) (hc : x.changes = []) : v.Spares u := by
  rcases Steps.bind_eq_error.mp h with h | ⟨player, v₁, hplayer, h⟩
  · exact .of_spends ((readPlayer_spends p).apply h)
  refine .after ((readPlayer_spends p).apply hplayer) ?_
  obtain ⟨hplayer, ha⟩ := readPlayer_ok hplayer
  obtain rfl : x.player = player := Option.some.inj (hx.player?.symm.trans (hp ▸ hplayer))
  rcases Steps.bind_eq_error.mp h with h | ⟨plan, v₂, hplan, h⟩
  · exact .of_spends ((ofExcept_spends _).apply h)
  obtain ⟨hof, rfl⟩ := ofExcept_eq_ok.mp hplan
  split at h
  · cases h
  · exact plan.commit_spares h (hx.alike ha) (Plan.ofCard_gains hof).1.player hc

theorem commitCard_spends (rules : Rules) (p : PlayerId) (card : Card) (choice : Option Nat)
    (target : Option CardId) : Keeps (World.Spends True) (commitCard rules p card choice target) :=
  (outageLaw rules).commitCard p card choice target

theorem writePaid_spends (player : Player) (card : Card) (r : PlayRequest) (paid : ResourceSet) :
    Keeps (Noted.Spends False) (writePaid player card r paid) :=
  (spendsLaw False {}).writePaid player card r paid

theorem checkPlay_spends {drawing : Prop} (book : Rulebook) (p : PlayerId) (r : PlayRequest) :
    Keeps (World.Spends drawing) (checkPlay book p r) := (spendsLaw drawing book.rules).checkPlay p book r

theorem commitPlay_spends (book : Rulebook) (p : PlayerId) (r : PlayRequest) :
    Keeps (World.Spends True) (commitPlay book p r) := (outageLaw book.rules).commitPlay p r

theorem commitPlay_spares (h : commitPlay book p r w = (.error stop, v)) : w.Spares v := by
  rcases Steps.bind_eq_error.mp h with h | ⟨⟨player, card, paid⟩, u, hcheck, h⟩
  · exact .of_spends ((checkPlay_spends book p r).apply h)
  refine .after ((checkPlay_spends book p r).apply hcheck) ?_
  rcases Steps.bind_eq_error.mp h with h | ⟨changes, _, -, h⟩
  · have hp := checkPlay_player? hcheck
    rw [← World.player?_id hp] at hp
    refine transact_spares h fun stop t hwrite => ?_
    rw [writePlay_eq] at hwrite
    rcases Steps.bind_eq_error.mp hwrite with hwrite | ⟨_, s, hpaid, hwrite⟩
    · exact .of_spends ((writePaid_spends player card r paid).apply hwrite)
    refine .after ((writePaid_spends player card r paid).apply hpaid) ?_
    obtain ⟨y, hy, rfl⟩ := Noted.ofEngine_eq.mp (show Noted.ofEngine _ (s.1, s.2) = _ from hwrite)
    exact commitCard_spares hy (writePaid_reached hpaid hp) rfl rfl
  · rcases Steps.bind_eq_error.mp h with h | ⟨_, _, _, h⟩ <;> cases h

theorem commitUse_spends (rules : Rules) (p : PlayerId) (card : CardId) (index : Nat)
    (choice : Option Nat) (target : Option CardId) :
    Keeps (World.Spends True) (commitUse rules p card index choice target) :=
  (outageLaw rules).commitUse p card index choice target

theorem commitUse_spares {card : CardId} {index : Nat}
    (h : commitUse rules p card index choice target w = (.error stop, v)) : w.Spares v := by
  rcases Steps.bind_eq_error.mp h with h | ⟨player, u, hplayer, h⟩
  · exact .of_spends ((readPlayer_spends p).apply h)
  refine .after ((readPlayer_spends p).apply hplayer) ?_
  obtain ⟨hp, ha⟩ := readPlayer_ok hplayer
  rw [← World.player?_id hp] at hp
  rcases Steps.bind_eq_error.mp h with h | ⟨action, _, haction, h⟩
  · exact .of_spends ((ofExcept_spends _).apply h)
  obtain ⟨-, rfl⟩ := ofExcept_eq_ok.mp haction
  rcases Steps.bind_eq_error.mp h with h | ⟨plan, _, hplan, h⟩
  · exact .of_spends ((ofExcept_spends _).apply h)
  obtain ⟨hof, rfl⟩ := ofExcept_eq_ok.mp hplan
  exact plan.commit_spares h ((World.Reached.start hp).alike ha) (Plan.ofAction_gains hof).1.player rfl

theorem commitPlacement_spends (rules : Rules) (p : PlayerId) (c : Coord) :
    Keeps (World.Spends False) (commitPlacement rules p c) :=
  (spendsLaw False rules).commitPlacement p fun _ _ _ => onStore_spends (Store.placeTile_spends _ _ _ _)

end Engine

/-- Selections have grown: an open one is still there, and these cards have come behind those that can
be taken. Nothing else on the desk has changed. -/
structure Desk.Grows (d : Desk) (drawn : List CardId) (d' : Desk) : Prop where
  id : d'.id = d.id
  corporation : d'.corporation = d.corporation
  hand : d'.hand = d.hand
  played : d'.played = d.played
  forced : d'.forced = d.forced
  tileOffer : d.tileOffer.isSome → d'.tileOffer = d.tileOffer
  toTake : d'.toTake = d.toTake ++ drawn
  source : ∀ o, d.drawOffer = some o → ∃ o', d'.drawOffer = some o' ∧ o'.source = o.source

section Grows

variable {x y : Player} {board : Board} {source : String} {tiles : List TileKind} {deck : List CardId}
  {n : Nat}

theorem Player.withTiles_offer (h : x.tileOffer.isSome) (board : Board) (source : String)
    (tiles : List TileKind) : (x.withTiles board source tiles).tileOffer = x.tileOffer := by
  unfold withTiles withQueue
  rw [if_pos h]
  split <;> rfl

theorem Player.withDraw_toTake (x : Player) (source : String) (deck : List CardId) (n : Nat) :
    (x.withDraw source (deck.take n) n).desk.toTake = x.desk.toTake ++ deck.take n := by
  unfold withDraw
  split
  · next hn => simp [hn]
  · cases hx : x.drawOffer <;> simp [desk, Desk.toTake, hx]

theorem Player.withDraw_source {o : DrawOffer} (h : x.drawOffer = some o) (source : String)
    (cards : List CardId) (n : Nat) :
    ∃ o', (x.withDraw source cards n).drawOffer = some o' ∧ o'.source = o.source := by
  unfold withDraw
  split
  · exact ⟨o, h, rfl⟩
  · exact ⟨_, rfl, by rw [h]; rfl⟩

/-- A record whose selections are those that come of tiles and cards, and whose desk is else the same. -/
theorem Player.desk_grows (id : y.id = x.id) (corporation : y.corporation = x.corporation)
    (hand : y.hand = x.hand) (played : y.played = x.played) (forced : y.forced = x.forced)
    (tileOffer : y.tileOffer = (x.withTiles board source tiles).tileOffer)
    (drawOffer : y.drawOffer = (x.withDraw source (deck.take n) n).drawOffer) :
    x.desk.Grows (deck.take n) y.desk where
  id := id
  corporation := corporation
  hand := hand
  played := played
  forced := forced
  tileOffer h := tileOffer.trans (withTiles_offer h board source tiles)
  toTake := by
    rw [← withDraw_toTake x source]
    exact congrArg (Option.elim · [] (·.cards)) drawOffer
  source o h := by
    obtain ⟨o', ho', hs⟩ := withDraw_source h source (deck.take n) n
    exact ⟨o', drawOffer.trans ho', hs⟩

theorem Plan.reached_grows (plan : Plan) (rules : Rules) (w : World) (board : Board) (x : Position) :
    x.player.desk.Grows (((x.decks.get? w.game).getD []).take plan.draw)
      (plan.reached rules w board x).player.desk := by
  rw [reached_player]
  exact Player.desk_grows rfl rfl rfl rfl rfl rfl rfl

theorem Table.take_append_put {decks : Table (List CardId)} {g : GameId} {n : Nat} :
    ((decks.get? g).getD []).take n ++ (((if n = 0 then decks else
      decks.put g (((decks.get? g).getD []).drop n)).get? g).getD []) = (decks.get? g).getD [] := by
  split
  · next hn => simp [hn]
  · rw [get?_put_self]
    exact List.take_append_drop ..

theorem Player.advance_desk (x : Player) (board : Board) : ∃ tileOffer queue,
    (x.advance board).desk = { x.desk with tileOffer, queue } :=
  ⟨(x.advance board).tileOffer, (x.advance board).queue, congrArg desk (x.advance_eq board)⟩

end Grows

namespace Engine

variable {book : Rulebook} {rules : Rules} {p : PlayerId} {w v : World} {d : Desk} {card : Card}
  {choice : Option Nat} {target : Option CardId} {r : PlayRequest} {events : List Event}

theorem commitCard_plain (h : commitCard rules p card choice target w = (.ok events, v)) :
    ∀ e ∈ events, e.Plain := by
  obtain ⟨player, _, -, h⟩ := Steps.bind_eq_ok.mp h
  obtain ⟨plan, _, -, h⟩ := Steps.bind_eq_ok.mp h
  split at h
  · obtain ⟨rfl, -⟩ := Steps.pure_eq_ok.mp h
    exact nofun
  · exact plan.commit_plain h

theorem commitCard_deals (h : commitCard rules p card choice target w = (.ok events, v)) :
    ∃ d drawn d', d.id = p ∧ w.Deals v d drawn d' ∧ d.Grows drawn d' := by
  have hspent : World.Spends True w v := (commitCard_spends rules p card choice target).apply h
  obtain ⟨player, u, hplayer, -⟩ := Steps.bind_eq_ok.mp h
  have hp := (readPlayer_ok hplayer).1
  obtain rfl := World.player?_id hp
  obtain ⟨board, hb⟩ := w.exists_playsOn
  obtain ⟨plan, -, -, hx⟩ := commitCard_reached h (World.Reached.start hp) rfl rfl hb
  have hgrows := plan.reached_grows rules w board ⟨player, [], w.session, w.store.decks⟩
  refine ⟨player.desk, _, _, rfl, hx.deals hp hgrows.id ?_ hspent.outages, hgrows⟩
  exact Table.take_append_put.symm

theorem commitUse_plain {id : CardId} {index : Nat}
    (h : commitUse rules p id index choice target w = (.ok events, v)) : ∀ e ∈ events, e.Plain := by
  obtain ⟨player, _, -, h⟩ := Steps.bind_eq_ok.mp h
  obtain ⟨action, _, -, h⟩ := Steps.bind_eq_ok.mp h
  obtain ⟨plan, _, -, h⟩ := Steps.bind_eq_ok.mp h
  exact plan.commit_plain h

theorem commitUse_deals {id : CardId} {index : Nat}
    (h : commitUse rules p id index choice target w = (.ok events, v)) :
    ∃ d drawn d', d.id = p ∧ w.Deals v d drawn d' ∧ d.Grows drawn d' := by
  have hspent : World.Spends True w v := (commitUse_spends rules p id index choice target).apply h
  obtain ⟨player, action, plan, board, actions, hp, -, -, -, -, hx⟩ := commitUse_reached h
  obtain rfl := World.player?_id hp
  have hgrows := plan.reached_grows rules w board ⟨player, [], w.session, w.store.decks⟩
  refine ⟨player.desk, _, _, rfl, hx.deals hp hgrows.id ?_ hspent.outages, hgrows⟩
  exact Table.take_append_put.symm

theorem commitPlay_plain (h : commitPlay book p r w = (.ok events, v)) : ∀ e ∈ events, e.Plain := by
  obtain ⟨⟨player, card, paid⟩, u, -, h⟩ := Steps.bind_eq_ok.mp h
  obtain ⟨written, t, hwrite, h⟩ := Steps.bind_eq_ok.mp h
  obtain ⟨g, _, -, h⟩ := Steps.bind_eq_ok.mp h
  obtain ⟨rfl, -⟩ := Steps.pure_eq_ok.mp h
  obtain ⟨noted, hwrite⟩ := transact_ok hwrite
  rw [writePlay_eq] at hwrite
  obtain ⟨_, s, -, hwrite⟩ := Steps.bind_eq_ok.mp hwrite
  obtain ⟨y, hy, -⟩ := Noted.ofEngine_eq_ok.mp (show Noted.ofEngine _ (s.1, s.2) = _ from hwrite)
  intro e he
  rcases List.mem_append.mp he with he | he
  · exact commitCard_plain hy e he
  · rw [List.mem_singleton.mp he]
    simp [Card.event, Event.Plain, Event.kind]

/-- A card that is played comes from the hand of its player. -/
theorem commitPlay_deals (h : commitPlay book p r w = (.ok events, v)) :
    ∃ d card drawn d', d.id = p ∧ book.catalog.find? r.card = some card ∧ card.id ∈ d.hand ∧
      w.Deals v d drawn d' ∧
      Desk.Grows { d with hand := d.hand.filter (· ≠ card.id), played := d.played ++ [card.id] } drawn d' := by
  have hspent : World.Spends True w v := (commitPlay_spends book p r).apply h
  obtain ⟨game, player, card, parameters, after, hg, hp, hcard, hplayed⟩ := commitPlay_played h
  obtain ⟨⟨player', card', paid⟩, u, hcheck, -⟩ := Steps.bind_eq_ok.mp h
  obtain ⟨-, -, hp', hcard', -⟩ := checkPlay_ok hcheck
  obtain ⟨game', hchecked⟩ := checkPlay_checked hcheck
  obtain rfl := Option.some.inj (hp.symm.trans hp')
  obtain rfl := Option.some.inj (hcard.symm.trans hcard')
  obtain rfl := World.player?_id hp
  have hrecord := hplayed.record
  have hgame : v.game = w.game :=
    (congrArg Session.game hplayed.session).trans (Session.listen_game w.session player.id card.effects)
  have hdeck : w.deck = w.deck.take (saturateNat32 (drawsOf (card.gains r.choice))) ++ v.deck := by
    show _ = _ ++ (v.store.decks.get? v.game).getD []
    rw [hgame, hplayed.decks]
    exact Table.take_append_put.symm
  let paidUp : Player := { player with
    hand := player.hand.filter (· ≠ card.id), played := player.played ++ [card.id] }
  have htiles (tiles : List TileKind) : (player.withTiles game.board card.id tiles).tileOffer =
      (paidUp.withTiles game.board card.id tiles).tileOffer := by
    rw [Player.withTiles_eq (x := player) (y := paidUp) rfl rfl rfl]
  have hdraw (cards : List CardId) (n : Nat) : (player.withDraw card.id cards n).drawOffer =
      (paidUp.withDraw card.id cards n).drawOffer := by
    rw [Player.withDraw_eq (x := player) (y := paidUp) rfl]
  have hgrows := Player.desk_grows (x := paidUp) hrecord.id hrecord.corporation hrecord.hand hrecord.played
    hrecord.forced (hrecord.tileOffer.trans (htiles _)) (hrecord.drawOffer.trans (hdraw _ _))
  exact ⟨player.desk, card, _, after.desk, rfl, hcard, (Card.checkPlay_ok hchecked).hand,
    .of_records hgame hp hrecord.id hplayed.records hdeck hspent.outages, hgrows⟩

/-- The tile that is placed is announced last, with the source of the offer. -/
theorem commitPlacement_events {c : Coord} {bonus : ResourceSet}
    (h : commitPlacement rules p c w = (.ok (bonus, events), v)) :
    ∃ player offer before, w.player? p = some player ∧ player.tileOffer = some offer ∧
      events = before ++ [.tilePlaced
        { game := v.game, player := p, tile := offer.tile, coord := c, source := some offer.source }] ∧
      ∀ e ∈ before, e.Plain := by
  obtain ⟨player, offer, game, u, changes, noted, gained, hp, hoffered, -, -, -, -, -, hgained, rfl⟩ :=
    commitPlacement_ok h
  refine ⟨player, offer, _, hp, hoffered, rfl, fun e he => ?_⟩
  rcases List.mem_append.mp he with he | he
  · obtain ⟨change, -, rfl⟩ := List.mem_map.mp he
    simp [Event.Plain, ParameterChange.event, Event.kind]
  · obtain ⟨b, rfl⟩ := hgained e he
    simp [Event.Plain, Event.kind]

theorem commitPlacement_deals {c : Coord} {bonus : ResourceSet}
    (h : commitPlacement rules p c w = (.ok (bonus, events), v)) :
    ∃ d offer tileOffer queue before, d.id = p ∧ d.tileOffer = some offer ∧ c ∈ offer.hexes ∧
      w.Deals v d [] { d with tileOffer, queue } ∧ events = before ++ [.tilePlaced
        { game := v.game, player := p, tile := offer.tile, coord := c, source := some offer.source }] ∧
      ∀ e ∈ before, e.Plain := by
  have hspent : World.Spends False w v := (commitPlacement_spends rules p c).apply h
  obtain ⟨game, player, offer, board, hg, hp, hplaced⟩ := commitPlacement_placed h
  obtain ⟨player', offer', before, hp', hoffer, hevents, hplain⟩ := commitPlacement_events h
  obtain rfl := Option.some.inj (hp.symm.trans hp')
  obtain rfl := Option.some.inj (hplaced.offered.symm.trans hoffer)
  obtain ⟨changes, resources, rating, hr⟩ := hplaced.records
  rw [Records.moveOn, Records.changeGame_changeGame] at hr
  obtain ⟨tileOffer, queue, hdesk⟩ :=
    Player.advance_desk { player with tileOffer := none, resources, rating } board
  obtain rfl := World.player?_id hp
  refine ⟨player.desk, offer, tileOffer, queue, before, rfl, hoffer, hplaced.listed, ?_, hevents, hplain⟩
  rw [show ({ player.desk with tileOffer, queue } : Desk) = _ from hdesk.symm]
  have hdeck : w.deck = [] ++ v.deck := (World.deck_of_decks hplaced.game (hspent.decks not_false)).symm
  exact .of_records hplaced.game hp (Player.advance_id _ _) hr hdeck hspent.outages

theorem DrawOffer.checkPicked_ok {o : DrawOffer} {before picked : List CardId}
    (h : o.checkPicked before picked = .ok ()) :
    picked.Nodup ∧ picked ⊆ o.cards ∧ ∀ c ∈ before, c ∉ picked := by
  induction picked generalizing before with
  | nil => simp
  | cons c rest ih =>
    unfold DrawOffer.checkPicked at h
    split at h
    · cases h
    split at h
    · cases h
    next hdrawn hnew =>
    obtain ⟨hnodup, hsub, hbefore⟩ := ih h
    have hdrawn : c ∈ o.cards := by simpa using hdrawn
    have hnew : c ∉ before := by simpa using hnew
    refine ⟨List.nodup_cons.mpr ⟨hbefore c (by simp), hnodup⟩, List.cons_subset.mpr ⟨hdrawn, hsub⟩, ?_⟩
    intro b hb hpicked
    rcases List.mem_cons.mp hpicked with rfl | hrest
    · exact hnew hb
    · exact hbefore b (List.mem_append_left _ hb) hrest

theorem DrawOffer.check_ok {o : DrawOffer} {picked : List CardId} {credits : Int}
    (h : o.check picked credits = .ok ()) : picked.Nodup ∧ picked ⊆ o.cards := by
  obtain ⟨_, hpicked, -⟩ := except_bind_eq_ok.mp h
  exact ⟨(checkPicked_ok hpicked).1, (checkPicked_ok hpicked).2.1⟩

/-- The picked cards go to the hand, and the offer of them is closed. -/
theorem takePicked_cases {u : World} {x : Player} {picked : List CardId} {e : Engine Event}
    {result : Except Stop Event} (hu : w.SameDesks u) (hd : w.desk? p = some x.desk)
    (h : (do update p (.hand (x.hand ++ picked)); update p (.drawOffer none); e) u = (result, v)) :
    ((∃ stop, result = .error stop) ∧ (w.SameDesks v ∨ w.Spoilt v)) ∨
      ∃ t, w.Deals t x.desk [] { x.desk with hand := x.hand ++ picked, drawOffer := none } ∧
        e t = (result, v) := by
  obtain ⟨y, hy, hdesk⟩ := World.player?_of_desk? ((hu.desk? p).trans hd)
  obtain rfl : x.id = p := World.desk?_id hd
  rcases Steps.bind_cases h with ⟨stop, hhand, rfl⟩ | ⟨_, t, hhand, h⟩
  · exact .inl ⟨⟨stop, rfl⟩, .inl (hu.trans (update_idle hhand).toSameDesks)⟩
  have hput : u.Deals t y.desk [] { y.desk with hand := x.hand ++ picked } := update_deals hhand hy
  rw [hdesk] at hput
  have hput := hput.after hu
  obtain ⟨z, hz, hdesk⟩ := World.player?_of_desk? ((hput.desk? x.id).trans (if_pos rfl))
  rcases Steps.bind_cases h with ⟨stop, hoffer, rfl⟩ | ⟨_, t', hoffer, h⟩
  · have hfail := hput.outages _ (update_mayFail hoffer hz)
    exact .inl ⟨⟨stop, rfl⟩, .inr ((hput.before (update_idle hoffer).toSameDesks).spoilt rfl hfail)⟩
  · have hclose : t.Deals t' z.desk [] { z.desk with drawOffer := none } := update_deals hoffer hz
    rw [hdesk] at hclose
    exact .inr ⟨t', hput.trans hclose, h⟩

theorem commitDraw_cases {picked : List CardId} {result : Except Stop Event}
    (h : commitDraw p picked w = (result, v)) :
    ((∃ stop, result = .error stop) ∧ (w.SameDesks v ∨ w.Spoilt v)) ∨
    ∃ d offer, d.id = p ∧ d.drawOffer = some offer ∧ picked.Nodup ∧ picked ⊆ offer.cards ∧
      w.Deals v d [] { d with hand := d.hand ++ picked, drawOffer := none } ∧
      result = .ok (.drawConfirmed
        { game := v.game, player := p, source := offer.source, cards := picked }) := by
  rcases Steps.bind_cases h with ⟨stop, hp, rfl⟩ | ⟨x, u, hp, h⟩
  · exact .inl ⟨⟨stop, rfl⟩, .inl ((readPlayer_idle p).apply hp).toSameDesks⟩
  have hu := ((readPlayer_idle p).apply hp).toSameDesks
  have hd := World.desk?_of_player? (readPlayer_ok hp).1
  cases hoffer : x.drawOffer with
  | none =>
    simp only [hoffer] at h
    cases h
    exact .inl ⟨⟨_, rfl⟩, .inl hu⟩
  | some offer =>
    simp only [hoffer] at h
    rcases Steps.bind_cases h with ⟨stop, hcheck, rfl⟩ | ⟨_, _, hcheck, h⟩
    · have hsame := (ofExcept_idle _).apply hcheck
      exact .inl ⟨⟨_, rfl⟩, .inl (hu.trans hsame.toSameDesks)⟩
    obtain ⟨hok, rfl⟩ := ofExcept_eq_ok.mp hcheck
    obtain ⟨hnodup, hsub⟩ := DrawOffer.check_ok hok
    have htaken : ((∃ stop, result = .error stop) ∧ (w.SameDesks v ∨ w.Spoilt v)) ∨
        ∃ t, w.Deals t x.desk [] { x.desk with hand := x.hand ++ picked, drawOffer := none } ∧
          (do return .drawConfirmed { game := ← gameId, player := p, source := offer.source, cards := picked } :
            Engine Event) t = (result, v) := by
      split at h
      · have hpaid (pool : ResourceSet) : Keeps World.Idle (update p (.resources pool)) :=
          update_offDesk (by simp [Entry.OffDesk, PlayerField.write])
        rcases Steps.bind_cases h with ⟨stop, hpay, rfl⟩ | ⟨_, t, hpay, h⟩
        · exact .inl ⟨⟨stop, rfl⟩, .inl (hu.trans ((hpaid _).apply hpay).toSameDesks)⟩
        · exact takePicked_cases (hu.trans ((hpaid _).apply hpay).toSameDesks) hd h
      · exact takePicked_cases hu hd h
    rcases htaken with hfailed | ⟨t, hdeals, ht⟩
    · exact .inl hfailed
    · cases ht
      exact .inr ⟨x.desk, offer, World.desk?_id hd, hoffer, hnodup, hsub, hdeals, rfl⟩

end Engine

end MarsRules
