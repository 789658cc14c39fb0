import MarsRules.Proofs.Handling
import MarsRules.Proofs.Outages

/-! What lies before the players: their cards, first actions and open selections. Passive effects and
the events that they give rise to leave all of it alone (`Engine.announce_idle`), so that a request
changes the desk of one player, and the deck where that player draws (`World.Deals`). -/

namespace MarsRules

open Steps (Keeps)

/-- A player's record without pools, numbers, actions and effects. -/
structure Desk where
  id : PlayerId
  corporation : Option CardId
  hand : List CardId
  played : List CardId
  forced : Option ForcedAction
  tileOffer : Option TileOffer
  drawOffer : Option DrawOffer
  queue : Option TileQueue
deriving DecidableEq, Repr

/-- The cards that can still be taken. -/
def Desk.toTake (d : Desk) : List CardId := d.drawOffer.elim [] (·.cards)

def Player.desk (x : Player) : Desk where
  id := x.id
  corporation := x.corporation
  hand := x.hand
  played := x.played
  forced := x.forced
  tileOffer := x.tileOffer
  drawOffer := x.drawOffer
  queue := x.queue

namespace World

/-- The desks of the session's game, in the order of its players. -/
def desks (w : World) : List Desk := (w.records.roster w.game).map Player.desk

def desk? (w : World) (p : PlayerId) : Option Desk := w.desks.find? (·.id == p)

/-- The cards of the session's game that can still be drawn, top first. -/
def deck (w : World) : List CardId := w.store.deck w.game

def turn (w : World) : Option PlayerId := (w.records.game? w.game).bind (·.turn)

theorem desk?_eq (w : World) (p : PlayerId) : w.desk? p = (w.player? p).map Player.desk :=
  List.find?_map ..

theorem desk?_of_player? {w : World} {p : PlayerId} {x : Player} (h : w.player? p = some x) :
    w.desk? p = some x.desk := by rw [desk?_eq, h]; rfl

theorem player?_of_desk? {w : World} {p : PlayerId} {d : Desk} (h : w.desk? p = some d) :
    ∃ x, w.player? p = some x ∧ x.desk = d :=
  Option.map_eq_some_iff.mp ((w.desk?_eq p).symm.trans h)

theorem desk?_id {w : World} {p : PlayerId} {d : Desk} (h : w.desk? p = some d) : d.id = p := by
  simpa using List.find?_some h

/-- The same desks and the same deck, while outages may have passed. -/
structure SameDesks (w v : World) : Prop where
  game : v.game = w.game
  desks : v.desks = w.desks
  deck : v.deck = w.deck
  outages : ∀ c, v.store.MayFail c → w.store.MayFail c

/-- Neither desks nor deck, nor who listens and whose turn it is, have changed. -/
structure Idle (w v : World) : Prop extends SameDesks w v where
  bus : v.session.bus = w.session.bus
  turn : v.turn = w.turn

/-- A player has come from one desk to another and has drawn these cards off the top of the deck;
nobody else has done anything. -/
structure Deals (w v : World) (d : Desk) (drawn : List CardId) (d' : Desk) : Prop where
  game : v.game = w.game
  there : w.desk? d.id = some d
  id : d'.id = d.id
  desks : v.desks = changeFirst (·.id == d.id) (fun _ => d') w.desks
  deck : w.deck = drawn ++ v.deck
  outages : ∀ c, v.store.MayFail c → w.store.MayFail c

section Relations

variable {w v u : World} {d d' d'' : Desk} {drawn more : List CardId}

theorem SameDesks.refl (w : World) : SameDesks w w := ⟨rfl, rfl, rfl, fun _ h => h⟩

theorem SameDesks.trans (h : SameDesks w v) (h' : SameDesks v u) : SameDesks w u :=
  ⟨h'.game.trans h.game, h'.desks.trans h.desks, h'.deck.trans h.deck,
    fun c hc => h.outages c (h'.outages c hc)⟩

theorem SameDesks.desk? (h : SameDesks w v) (p : PlayerId) : v.desk? p = w.desk? p := by
  rw [World.desk?, h.desks]
  rfl

instance : Std.Refl SameDesks := ⟨.refl⟩

instance : Trans SameDesks SameDesks SameDesks := ⟨.trans⟩

theorem Idle.refl (w : World) : Idle w w := ⟨.refl w, rfl, rfl⟩

theorem Idle.trans (h : Idle w v) (h' : Idle v u) : Idle w u :=
  ⟨h.toSameDesks.trans h'.toSameDesks, h'.bus.trans h.bus, h'.turn.trans h.turn⟩

instance : Std.Refl Idle := ⟨.refl⟩

instance : Trans Idle Idle Idle := ⟨.trans⟩

namespace Deals

theorem desk? (h : Deals w v d drawn d') (p : PlayerId) :
    v.desk? p = if p = d.id then some d' else w.desk? p := by
  have hid (x : Desk) (hx : (x.id == d.id) = true) : (d'.id == p) = (x.id == p) := by
    rw [h.id, show x.id = d.id by simpa using hx]
  rw [World.desk?, h.desks]
  split
  · next hp =>
    subst hp
    rw [find?_changeFirst (by simp [h.id])]
    exact congrArg (Option.map _) h.there
  · next hp =>
    rcases find?_changeFirst_of_same (q := (·.id == p)) hid w.desks with hsame | ⟨x, hx, hfound, -⟩
    · exact hsame
    · have hxp : x.id = p := by simpa using List.find?_some hfound
      exact absurd (hxp.symm.trans (by simpa using hx)) hp

theorem after (h : SameDesks w v) (h' : Deals v u d drawn d') : Deals w u d drawn d' :=
  ⟨h'.game.trans h.game, (h.desk? _).symm.trans h'.there, h'.id, h.desks ▸ h'.desks,
    h.deck ▸ h'.deck, fun c hc => h.outages c (h'.outages c hc)⟩

theorem before (h : Deals w v d drawn d') (h' : SameDesks v u) : Deals w u d drawn d' :=
  ⟨h'.game.trans h.game, h.there, h.id, h'.desks.trans h.desks, h'.deck ▸ h.deck,
    fun c hc => h.outages c (h'.outages c hc)⟩

theorem trans (h : Deals w v d drawn d') (h' : Deals v u d' more d'') :
    Deals w u d (drawn ++ more) d'' where
  game := h'.game.trans h.game
  there := h.there
  id := h'.id.trans h.id
  desks := by
    rw [h'.desks, h.desks, h.id, changeFirst_changeFirst (by simp [h.id])]
    rfl
  deck := by rw [h.deck, h'.deck, List.append_assoc]
  outages c hc := h.outages c (h'.outages c hc)

end Deals

end Relations

end World

section Records

variable {r : Records} {g : GameId} {p : PlayerId} {f : Player → Player}

theorem Records.map_desk_changePlayer {d' : Desk} (hf : ∀ x, r.player? g p = some x → (f x).desk = d') :
    ((r.changePlayer g p f).roster g).map Player.desk =
      changeFirst (·.id == p) (fun _ => d') ((r.roster g).map Player.desk) := by
  rw [roster_changePlayer, if_pos rfl]
  unfold player? at hf
  generalize r.roster g = players at hf ⊢
  induction players with
  | nil => rfl
  | cons x rest ih =>
    simp only [List.find?_cons] at hf
    have hid : (x.desk.id == p) = (x.id == p) := rfl
    cases hx : x.id == p
    · simp only [hx] at hf
      simp [changeFirst, hx, hid, ih hf]
    · simp only [hx] at hf
      simp [changeFirst, hx, hid, hf x rfl]

theorem Records.map_desk_of_desk (hf : ∀ x, (f x).desk = x.desk) :
    ((r.changePlayer g p f).roster g).map Player.desk = (r.roster g).map Player.desk := by
  rw [roster_changePlayer, if_pos rfl]
  exact map_changeFirst (fun x _ => hf x) _

theorem Records.turn_changeGame {u : Game → Game} (hu : ∀ game, (u game).turn = game.turn) :
    ((r.changeGame g u).game? g).bind (·.turn) = (r.game? g).bind (·.turn) := by
  rw [game?_changeGame]
  cases r.game? g <;> simp [hu]

end Records

/-- An entry that is on no desk. -/
def Entry.OffDesk : Entry → Prop
  | .player _ f => f.write ∉
      [Write.corporation, .hand, .played, .forced, .tileOffer, .drawOffer, .queue]
  | .parameter _ _ => True

theorem Entry.Passive.offDesk (e : Entry) (h : e.Passive) : e.OffDesk := by
  cases e with
  | player p f => cases f <;> simp_all [Passive, OffDesk, PlayerField.write]
  | parameter => trivial

theorem PlayerField.desk_put {f : PlayerField} {p : PlayerId} (h : (Entry.player p f).OffDesk)
    (x : Player) : (f.put x).desk = x.desk := by
  cases f <;> first | rfl | simp [Entry.OffDesk, write] at h

theorem Records.map_desk_putAll {es : List Entry} (h : ∀ e ∈ es, e.OffDesk) (g : GameId) (r : Records) :
    ((r.putAll g es).roster g).map Player.desk = (r.roster g).map Player.desk := by
  induction es generalizing r with
  | nil => rfl
  | cons e rest ih =>
    obtain ⟨he, hrest⟩ := List.forall_mem_cons.mp h
    refine (ih hrest _).trans ?_
    cases e with
    | player p f => exact map_desk_of_desk (PlayerField.desk_put he)
    | parameter q v => rw [Entry.put, roster_changeGame]

/-- No entry says whose turn it is. -/
theorem Records.turn_putAll (r : Records) (g : GameId) (es : List Entry) :
    ((r.putAll g es).game? g).bind (·.turn) = (r.game? g).bind (·.turn) := by
  induction es generalizing r with
  | nil => rfl
  | cons e rest ih =>
    refine (ih _).trans ?_
    cases e with
    | player p f => rw [Entry.put, game?_changePlayer]
    | parameter q v => exact turn_changeGame fun _ => rfl

namespace World

variable {w v : World}

theorem deck_of_decks (hg : v.game = w.game) (hd : v.store.decks = w.store.decks) :
    v.deck = w.deck := by
  rw [deck, Store.deck, hg, hd]
  rfl

theorem Wrote.turn {ok : Entry → Prop} (h : Wrote ok w v) : v.turn = w.turn := by
  obtain ⟨es, hr, -⟩ := h.store
  rw [World.turn, h.game, show v.records = w.records.putAll w.game es from hr]
  exact Records.turn_putAll w.records w.game es

theorem Wrote.idle (h : Wrote Entry.OffDesk w v) (hs : Spends False w v) : Idle w v := by
  obtain ⟨es, hr, hes⟩ := h.store
  refine ⟨⟨h.game, ?_, deck_of_decks h.game (hs.decks not_false), hs.outages⟩, h.bus, h.turn⟩
  rw [desks, h.game, show v.records = w.records.putAll w.game es from hr]
  exact Records.map_desk_putAll hes w.game w.records

theorem Alike.idle (h : Alike w v) (hs : Spends False w v) : Idle w v := Wrote.idle h.wrote hs

/-- The records are what they were before a transaction, and nothing was drawn. -/
theorem Restored.sameDesks (h : Restored w v) (hs : Spends False w v) : SameDesks w v :=
  ⟨h.game, by rw [desks, h.game, h.records]; rfl, deck_of_decks h.game (hs.decks not_false), hs.outages⟩

/-- A player's record has changed, and the game but for its players. -/
theorem Deals.of_records {x y : Player} {u : Game → Game} {drawn : List CardId}
    (hg : v.game = w.game) (hp : w.player? x.id = some x) (hid : y.id = x.id)
    (hr : v.records = (w.records.changeGame w.game u).changePlayer w.game x.id fun _ => y)
    (hd : w.deck = drawn ++ v.deck) (ho : ∀ c, v.store.MayFail c → w.store.MayFail c) :
    Deals w v x.desk drawn y.desk where
  game := hg
  there := desk?_of_player? hp
  id := hid
  desks := by
    rw [World.desks, hg, hr, Records.map_desk_changePlayer fun _ _ => rfl, Records.roster_changeGame]
    rfl
  deck := hd
  outages := ho

theorem Reached.deals {z : Position} {x : Player} {drawn : List CardId} (h : w.Reached z v)
    (hp : w.player? x.id = some x) (hid : z.player.id = x.id)
    (hd : w.deck = drawn ++ (z.decks.get? w.game).getD [])
    (ho : ∀ c, v.store.MayFail c → w.store.MayFail c) : Deals w v x.desk drawn z.player.desk := by
  refine .of_records h.game_eq hp hid (hid ▸ h.records) ?_ ho
  rw [hd, deck, Store.deck, h.game_eq, h.decks]

end World

namespace Engine

variable {p : PlayerId} {f : PlayerField} {w v : World} {d : Desk}

/-- An update that succeeds changes the player's desk as it changes the record. -/
theorem update_deals {x : Player} (h : update p f w = (.ok (), v)) (hp : w.player? p = some x) :
    w.Deals v x.desk [] (f.put x).desk := by
  obtain ⟨-, hs, hr, hd⟩ := update_ok h
  have hg : v.game = w.game := congrArg Session.game hs
  have hspent : World.Spends False w v := (update_spends p f).apply h
  obtain rfl := World.player?_id hp
  refine .of_records (u := id) hg hp (f.id_put x) ?_ (World.deck_of_decks hg hd).symm hspent.outages
  have hsame : w.records.changeGame w.game id = w.records := Records.changeGame_of_game? fun _ _ => rfl
  rw [hr, hsame]
  exact Records.changePlayer_congr fun y hy => by rw [Option.some.inj (hp.symm.trans hy)]

/-- Drawing leaves the desks. -/
theorem drawCards_deals {x : Player} {n : Nat} {cards : List CardId}
    (h : onStore (Store.drawCards w.game n) w = (.ok cards, v)) (hp : w.player? p = some x) :
    cards = w.deck.take n ∧ w.Deals v x.desk cards x.desk ∧ v.player? p = some x := by
  have hspent : World.Spends True w v := (drawCards_spends _ _ trivial).apply h
  obtain ⟨t, ht, rfl⟩ := onStore_eq_ok.mp h
  obtain ⟨deck, hdeck, rfl, hr, hd⟩ := Store.drawCards_ok ht
  have hdeck : w.deck = deck := by rw [World.deck, Store.deck, hdeck]; rfl
  obtain rfl := World.player?_id hp
  have hthere : World.player? { w with store := t } x.id = some x := by
    show t.records.player? w.game x.id = _
    rw [hr]
    exact hp
  refine ⟨by rw [hdeck], ?_, hthere⟩
  refine .of_records (u := id) rfl hp rfl ?_ ?_ hspent.outages
  · have hsame : w.records.changeGame w.game id = w.records := Records.changeGame_of_game? fun _ _ => rfl
    rw [hsame]
    refine hr.trans ((Records.changePlayer_congr fun y hy => ?_).trans Records.changePlayer_id).symm
    exact Option.some.inj (hp.symm.trans hy)
  · have hrest : World.deck { w with store := t } = deck.drop n := by
      show (t.decks.get? w.game).getD [] = _
      rw [hd, Table.get?_put_self]
      rfl
    rw [hrest, hdeck, List.take_append_drop]

theorem update_offDesk (h : (Entry.player p f).OffDesk) : Keeps World.Idle (update p f) :=
  fun w => World.Wrote.idle (update_wrote h w) (update_spends p f w)

theorem update_idle {stop : Stop} (h : update p f w = (.error stop, v)) : w.Idle v :=
  (update_error h).idle ((update_spends p f).apply h)

end Engine

/-- An event that forced actions are not concerned with. -/
def Event.Plain (e : Event) : Prop :=
  e.kind ∉ [EventKind.phaseChanged, .drawConfirmed, .tilePlaced]

namespace Engine

open World (Idle)

variable {α : Type} {book : Rulebook} {e : Event}

theorem alike_idle {x : Engine α} (ha : Keeps World.Alike x) (hs : Keeps (World.Spends False) x) :
    Keeps Idle x := fun w => (ha w).idle (hs w)

theorem readGame_idle : Keeps Idle readGame := alike_idle readGame_alike readGame_spends

theorem readPlayer_idle (p : PlayerId) : Keeps Idle (readPlayer p) :=
  alike_idle (readPlayer_alike p) (readPlayer_spends p)

theorem findCard_idle (catalog : Catalog) (id : CardId) : Keeps Idle (findCard catalog id) :=
  alike_idle (findCard_alike catalog id) (findCard_spends catalog id)

theorem ofExcept_idle (y : Except Refusal α) : Keeps Idle (ofExcept y) :=
  alike_idle (ofExcept_alike y) (ofExcept_spends y)

theorem watchForced_plain (catalog : Catalog) (he : e.Plain) : Keeps Idle (watchForced catalog e) := by
  refine Keeps.bind (fun w => .refl w) fun g => ?_
  split
  · exact Keeps.pure _
  · cases e with
    | phaseChanged | drawConfirmed | tilePlaced => simp [Event.Plain, Event.kind] at he
    | parameterChanged | cardPlayed | bonusGained => exact Keeps.pure _

end Engine

namespace CardEffect

theorem react_spends (effect : CardEffect) (rules : Rules) (owner : PlayerId) (e : Event) :
    Keeps (World.Spends False) (effect.react rules owner e) := by
  refine Engine.gameId_spends.bind fun g => ?_
  split
  · exact Keeps.pure _
  · refine (Engine.readPlayer_spends owner).bind fun player => ?_
    refine (Engine.ofExcept_spends _).bind_of fun w plan v h => ?_
    obtain ⟨hplan, rfl⟩ := Engine.ofExcept_eq_ok.mp h
    split
    · exact .refl _
    · exact (plan.commit_spends rules false w).mono fun hn => hn (plan_passive hplan).draw

theorem react_idle (effect : CardEffect) (rules : Rules) (owner : PlayerId) (e : Event) :
    Keeps World.Idle (effect.react rules owner e) := by
  intro w
  refine World.Wrote.idle ?_ (effect.react_spends rules owner e w)
  rcases h : effect.react rules owner e w with ⟨r, v⟩
  rcases react_cases h with ⟨hv, -⟩ | ⟨player, plan, u, -, -, hplan, hu, hc⟩
  · exact hv.wrote
  · have hcommit := ((plan_passive hplan).commit_wrote rules false).apply hc
    exact hu.wrote.trans (hcommit.mono Entry.Passive.offDesk)

end CardEffect

theorem Plan.commit_plain {plan : Plan} {rules : Rules} {listening : Bool} {w v : World}
    {events : List Event} (h : plan.commit rules listening w = (.ok events, v)) :
    ∀ e ∈ events, e.Plain := by
  obtain ⟨changes, u, -, h⟩ := Steps.bind_eq_ok.mp h
  obtain ⟨game, _, -, h⟩ := Steps.bind_eq_ok.mp h
  obtain ⟨rfl, -⟩ := Steps.pure_eq_ok.mp h
  intro e he
  obtain ⟨c, -, rfl⟩ := List.mem_map.mp he
  simp [Event.Plain, ParameterChange.event, Event.kind]

namespace Listener

variable {book : Rulebook} {e : Event} {l : Listener} {w v : World} {events : List Event}

/-- Listeners give rise to changes of parameters only. -/
theorem react_plain (h : l.react book e w = (.ok events, v)) : ∀ e' ∈ events, e'.Plain := by
  have hnone (h : events = []) : ∀ e' ∈ events, e'.Plain := h ▸ nofun
  cases l with
  | recorder =>
    obtain ⟨_, u, -, h⟩ := Steps.bind_eq_ok.mp h
    exact hnone (Steps.pure_eq_ok.mp h).1.symm
  | forcedAction =>
    obtain ⟨_, u, -, h⟩ := Steps.bind_eq_ok.mp h
    exact hnone (Steps.pure_eq_ok.mp h).1.symm
  | effect owner standing =>
    rcases CardEffect.react_cases h with ⟨-, hevents⟩ | ⟨player, plan, u, -, -, -, -, hc⟩
    · exact hnone (hevents events rfl)
    · exact Plan.commit_plain hc

/-- Only forced actions change what lies before the players. -/
theorem react_idle_of_ne (book : Rulebook) (e : Event) (hl : l ≠ .forcedAction) :
    Keeps World.Idle (l.react book e) := by
  cases l with
  | recorder => exact fun w => ⟨⟨rfl, rfl, rfl, fun _ h => h⟩, rfl, rfl⟩
  | forcedAction => exact absurd rfl hl
  | effect owner standing => exact standing.react_idle book.rules owner e

theorem react_idle (book : Rulebook) (he : e.Plain) (l : Listener) : Keeps World.Idle (l.react book e) := by
  by_cases hl : l = .forcedAction
  · subst hl
    exact (Engine.watchForced_plain book.catalog he).bind fun _ => Keeps.pure _
  · exact react_idle_of_ne book e hl

end Listener

namespace Engine

open World (Idle)

variable {book : Rulebook} {e : Event}

theorem publishWithin_idle (book : Rulebook) (depth : Nat) (he : e.Plain) :
    Keeps Idle (publishWithin book depth e) := by
  induction depth generalizing e with
  | zero => exact Keeps.stop _
  | succ depth ih =>
    exact publishWithin_keeps_of (Listener.react_idle book he) fun _ _ _ _ hreact e' he' =>
      ih (Listener.react_plain hreact e' he')

/-- Announcing what forced actions are not concerned with is idle, whatever effects answer it. -/
theorem announce_idle (book : Rulebook) {events : List Event} (h : ∀ e ∈ events, e.Plain) :
    Keeps Idle (announce book events) :=
  Keeps.forM_of fun e he => (publishWithin_idle book _ (h e he)).bind fun _ => Keeps.pure _

end Engine

end MarsRules
