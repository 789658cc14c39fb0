import Mathlib.Logic.Relation
import MarsRules.Proofs.Placement
import MarsRules.Proofs.Solvency

/-! What becomes of actions, queues, offers and boards. `Records.Handling` lists the steps that there
are; what listeners do is a run of such steps (`Listener.react_handled`), and so is what plans and
placements have written (`World.Reached.handled`, `Placed.handled`). -/

namespace MarsRules

open Relation (ReflTransGen)
open Steps (Keeps)

/-- What can be asked of a session, or of its forced actions by themselves. -/
inductive Request where
  | call (c : SessionCall)
  | trigger (p : PlayerId)

def Request.run (book : Rulebook) : Request → Engine Unit
  | call c => c.run book
  | trigger p => do let _ ← Engine.triggerForced book.catalog p

/-- What can become of a player's actions, queue and offer in one step, on this board. Actions
are used up and more are added behind them; only the next generation makes them usable again. -/
inductive Player.Handling (board : Board) (request : Request) (x : Player) : Player → Prop
  | aside {y : Player} (id : y.id = x.id) (actions : y.actions = x.actions) (queue : y.queue = x.queue)
      (tileOffer : y.tileOffer = x.tileOffer) : Handling board request x y
  | act {more actions : List CardAction} {used : Option (CardId × Nat)}
      (written : Plan.useUp (x.actions ++ more) used = .ok actions) :
      Handling board request x { x with actions }
  | renew (asked : request = .call .advanceGeneration) (actions : List CardAction) :
      Handling board request x { x with actions }
  | offer {tile : TileKind} (fits : board.legalHexes tile x.id ≠ []) (source : String) :
      Handling board request x
        { x with tileOffer := some { tile, hexes := board.legalHexes tile x.id, source } }
  | queue (source : String) (tiles : List TileKind) :
      Handling board request x (x.withTiles board source tiles)

/-- One step with the records of a game: a player's record, the game but for its board, or a tile that
the player who asked for it puts on an offered hex. -/
inductive Records.Handling (g : GameId) (request : Request) (r : Records) : Records → Prop
  | player {x y : Player} {board : Board} (played : r.PlaysOn g board)
      (there : r.player? g x.id = some x) (step : x.Handling board request y) :
      Handling g request r (r.changePlayer g x.id fun _ => y)
  | game {u : Game → Game} (board : ∀ game, (u game).board = game.board) :
      Handling g request r (r.changeGame g u)
  | place {x : Player} {game : Game} {offer : TileOffer} {c : Coord} {bonus : ResourceSet}
      {board : Board} (asked : request = .call (.act x.id (.place c)))
      (there : r.player? g x.id = some x) (played : r.game? g = some game)
      (offered : x.tileOffer = some offer) (listed : c ∈ offer.hexes)
      (occupied : game.board.occupy c offer.tile (offer.tile.ownerOf x.id) = .ok (bonus, board))
      (resources : ResourceSet) (rating : Int) :
      Handling g request r ((r.changeGame g ({ · with board })).changePlayer g x.id fun _ =>
        { x with tileOffer := none, resources, rating }.advance board)

/-- Such steps lead from one world to the other. -/
structure World.Handled (request : Request) (w v : World) : Prop where
  game : v.game = w.game
  records : ReflTransGen (Records.Handling w.game request) w.records v.records

section Handled

variable {request : Request}

instance : Std.Refl (World.Handled request) := ⟨fun _ => ⟨rfl, .refl⟩⟩

theorem World.Handled.trans {w v u : World} (h : Handled request w v) (h' : Handled request v u) :
    Handled request w u := ⟨h'.game.trans h.game, h.records.trans (h.game ▸ h'.records)⟩

theorem World.Handled.keeps {w v : World} {I : Records → Prop} (h : Handled request w v)
    (step : ∀ r r', Records.Handling w.game request r r' → I r → I r') (hw : I w.records) :
    I v.records := by
  have hrecords := h.records
  generalize v.records = r at hrecords
  induction hrecords with
  | refl => exact hw
  | tail _ hstep ih => exact step _ _ hstep ih

instance : Trans (World.Handled request) (World.Handled request) (World.Handled request) :=
  ⟨World.Handled.trans⟩

theorem World.Restored.handled {w v : World} (h : Restored w v) : Handled request w v :=
  ⟨h.game, h.records ▸ .refl⟩

theorem World.Alike.handled {w v : World} (h : Alike w v) : Handled request w v := h.restored.handled

theorem Player.Handling.id_eq {board : Board} {x y : Player} (h : x.Handling board request y) :
    y.id = x.id := by
  cases h with
  | aside id => exact id
  | act | renew | offer => rfl
  | queue source tiles =>
    unfold withTiles
    split
    · rfl
    · exact withQueue_id _ _ _

namespace Records

variable {r : Records} {g : GameId} {x y : Player} {board : Board}

theorem handled_player (played : r.PlaysOn g board) (there : r.player? g x.id = some x)
    (h : ReflTransGen (Player.Handling board request) x y) :
    y.id = x.id ∧ ReflTransGen (Handling g request) r (r.changePlayer g x.id fun _ => y) := by
  induction h with
  | refl =>
    refine ⟨rfl, ?_⟩
    have hsame : r.changePlayer g x.id (fun _ => x) = r :=
      (changePlayer_congr fun z hz => Option.some.inj (there.symm.trans hz)).trans changePlayer_id
    rw [hsame]
  | @tail y z _ hz ih =>
    obtain ⟨hid, ih⟩ := ih
    refine ⟨hz.id_eq.trans hid, ih.tail ?_⟩
    have hthere : (r.changePlayer g x.id fun _ => y).player? g y.id = some y := by
      rw [hid, player?_changePlayer fun _ _ => hid, there]
      rfl
    have hplayed : (r.changePlayer g x.id fun _ => y).PlaysOn g board := fun game hg =>
      played game (by rwa [game?_changePlayer] at hg)
    have hstep := Handling.player hplayed hthere hz
    rw [hid, changePlayer_changePlayer fun _ _ => hid] at hstep
    exact hstep

end Records

/-- An entry that leaves actions, queues and offers of tiles alone. -/
def Entry.Aside : Entry → Prop
  | .player _ f => f.write ∉ [Write.actions, .queue, .tileOffer]
  | .parameter _ _ => True

theorem Entry.Aside.handled {e : Entry} (h : e.Aside) (g : GameId) (r : Records) :
    ReflTransGen (Records.Handling g request) r (e.put g r) := by
  cases e with
  | parameter q v => exact .single (.game fun _ => rfl)
  | player p f =>
    cases hp : r.player? g p with
    | none =>
      have hsame : (Entry.player p f).put g r = r :=
        (Records.changePlayer_congr fun x hx => by simp [hp] at hx).trans Records.changePlayer_id
      rw [hsame]
    | some x =>
      obtain rfl : x.id = p := by simpa using List.find?_some hp
      obtain ⟨board, hb⟩ := r.exists_playsOn g
      have hput : (Entry.player x.id f).put g r = r.changePlayer g x.id fun _ => f.put x :=
        Records.changePlayer_congr fun y hy => by rw [Option.some.inj (hp.symm.trans hy)]
      rw [hput]
      refine .single (.player hb hp (.aside (f.id_put x) ?_ ?_ ?_)) <;>
        cases f <;> simp_all [Aside, PlayerField.write, PlayerField.put]

theorem Records.handled_putAll {es : List Entry} (h : ∀ e ∈ es, e.Aside) (g : GameId) (r : Records) :
    ReflTransGen (Handling g request) r (r.putAll g es) := by
  induction es generalizing r with
  | nil => exact .refl
  | cons e rest ih =>
    obtain ⟨he, hrest⟩ := List.forall_mem_cons.mp h
    exact (he.handled g r).trans (ih hrest _)

theorem World.Wrote.handled {w v : World} (h : Wrote Entry.Aside w v) : Handled request w v := by
  obtain ⟨es, hr, hes⟩ := h.store
  have hr : v.records = w.records.putAll w.game es := hr
  exact ⟨h.game, hr ▸ Records.handled_putAll hes w.game w.records⟩

theorem World.Becomes.handled {w v : World} {u : Game → Game} (h : ∀ game, (u game).board = game.board)
    (hv : w.Becomes (w.records.changeGame w.game u) v) : Handled request w v :=
  ⟨hv.game, hv.records ▸ .single (.game h)⟩

end Handled

/-- A plan that changes numbers only: no actions, effects, tiles or cards. -/
structure Plan.Passive (plan : Plan) : Prop where
  actions : plan.actions = []
  used : plan.used = none
  effects : plan.effects = []
  tiles : plan.tiles = []
  draw : plan.draw = 0

/-- An entry of the kind that such a plan writes. -/
def Entry.Passive : Entry → Prop
  | .player _ f => f.write ∈ [Write.production, .points, .resources, .rating, .storage]
  | .parameter _ _ => True

theorem Entry.Passive.aside (e : Entry) (h : e.Passive) : e.Aside := by
  cases e with
  | player p f => cases f <;> simp_all [Passive, Aside, PlayerField.write]
  | parameter => trivial

namespace Noted

theorem overwrite_passive {player : Player} {f : PlayerField}
    (h : f.write ∈ [Write.production, .points, .resources, .rating, .storage]) :
    Keeps (Recorded Entry.Passive) (overwrite player f) :=
  overwrite_recorded fun f' hf => show f'.write ∈ _ from hf ▸ h

theorem applySteps_passive (rules : Rules) (p : PlayerId) (steps : List (GlobalParameter × Int)) :
    Keeps (Recorded Entry.Passive) (applySteps rules p steps) := by
  refine applySteps_keeps rules p steps alike_recorded (fun q v => note_recorded fun e he => ?_)
    (fun q v => ofEngine_recorded (Engine.updateParameter_wrote trivial))
    fun _ _ => overwrite_passive (by simp [PlayerField.write])
  obtain rfl := List.mem_singleton.mp he
  trivial

end Noted

namespace Plan

open Noted

variable {plan : Plan}

/-- Whether it is written or refused, even where putting back fails. -/
theorem Passive.commit_wrote (h : plan.Passive) (rules : Rules) (listening : Bool) :
    Keeps (World.Wrote Entry.Passive) (plan.commit rules listening) := by
  refine Keeps.bind (fun w => transact_wrote (Keeps.bind ?_ (fun player => ?_) (w, []))) fun changes =>
    Keeps.bind (fun w => (Engine.gameId_alike w).wrote) fun _ => Keeps.pure _
  · exact alike_recorded (Engine.readPlayer_alike _)
  · have ho {f : PlayerField} := @overwrite_passive player f
    refine Keeps.bind (Keeps.bind ((ho (by simp [PlayerField.write])).when _) fun _ => ?_) fun _ => ?_
    · refine Keeps.bind (by simp [writeActions, h.actions, h.used, Keeps.pure]) fun _ => ?_
      refine Keeps.bind (by simp [writeEffects, h.effects, Keeps.pure]) fun _ => ?_
      refine ((ho (by simp [PlayerField.write])).when _).bind fun _ => ?_
      refine ((ho (by simp [PlayerField.write])).when _).bind fun _ => ?_
      refine ((ho (by simp [PlayerField.write])).when _).bind fun _ => ?_
      refine ((ho (by simp [PlayerField.write])).when _).bind fun _ => ?_
      simp [writeTiles, h.tiles, Keeps.pure]
    · refine (applySteps_passive rules _ _).bind fun changes => ?_
      exact Keeps.bind (by simp [writeDraw, h.draw, Keeps.pure]) fun _ => Keeps.pure _

end Plan

section Passive

variable {items : List LineItem}

theorem tilesOf_passive (h : ∀ item ∈ items, item.kind.isPassive) : tilesOf items = [] := by
  refine List.flatMap_eq_nil_iff.mpr fun item hitem => ?_
  have hpassive := h item (List.mem_filter.mp hitem).1
  cases hk : item.kind <;> simp_all [ResourceKind.isPassive]

theorem drawsOf_passive (h : ∀ item ∈ items, item.kind.isPassive) : drawsOf items = 0 := by
  have hnone : (ownOutputs items).filter (·.kind == .cardDraw) = [] :=
    List.filter_eq_nil_iff.mpr fun item hitem hkind => by
      have hpassive := h item (List.mem_filter.mp hitem).1
      cases hk : item.kind <;> simp_all [ResourceKind.isPassive]
  simp [drawsOf, hnone]

end Passive

theorem CardEffect.plan_passive {effect : CardEffect} {owner : Player} {e : Event} {plan : Plan}
    (h : effect.plan owner e = .ok plan) : plan.Passive := by
  have hgains := Plan.addOutputs_gains h
  have hpassive : ∀ item ∈ effect.applicable owner.id e, item.kind.isPassive := fun item hitem =>
    (Bool.and_eq_true_iff.mp (List.mem_filter.mp hitem).2).2
  refine ⟨hgains.actions, hgains.used, hgains.effects,
    hgains.tiles.trans (tilesOf_passive hpassive), ?_⟩
  rw [hgains.draw (Nat.zero_le _), drawsOf_passive hpassive]
  rfl

namespace Engine

variable {request : Request} {book : Rulebook} {p : PlayerId}

theorem alike_handled {α : Type} {x : Engine α} (hx : Keeps World.Alike x) :
    Keeps (World.Handled request) x := fun w => (hx w).handled

theorem wrote_handled {α : Type} {x : Engine α} (hx : Keeps (World.Wrote Entry.Aside) x) :
    Keeps (World.Handled request) x := fun w => (hx w).handled

theorem update_aside (p : PlayerId) {f : PlayerField}
    (h : f.write ∉ [Write.actions, .queue, .tileOffer]) : Keeps (World.Wrote Entry.Aside) (update p f) :=
  update_wrote h

/-- An update that makes a step of the player's record is a step. -/
theorem update_handled {board : Board} {f : PlayerField} {w : World} (hb : w.PlaysOn board)
    (hf : ∀ x : Player, x.id = p → x.Handling board request (f.put x)) :
    World.Handled request w (update p f w).2 := by
  rcases hu : update p f w with ⟨stop | _, v⟩
  · exact (update_error hu).handled
  · obtain ⟨⟨x, hx⟩, hs, hr, -⟩ := update_ok hu
    obtain rfl := World.player?_id hx
    refine ⟨congrArg Session.game hs, ?_⟩
    have hput : v.records = w.records.changePlayer w.game x.id fun _ => f.put x :=
      hr.trans (Records.changePlayer_congr fun y hy => by rw [Option.some.inj (hy.symm.trans hx)])
    exact hput ▸ .single (.player hb hx (hf x rfl))

theorem offerForced_handled (p : PlayerId) (source : CardId) (item : LineItem) :
    Keeps (World.Handled request) (offerForced p source item) := by
  unfold offerForced
  split
  · refine (alike_handled gameId_alike).bind fun g => wrote_handled ?_
    exact (drawCards_wrote g _).bind fun _ => update_aside p (by simp [PlayerField.write])
  · next tile hk =>
    refine (alike_handled readGame_alike).bind_of fun w game v hgame => ?_
    obtain ⟨hg, ha⟩ := readGame_ok hgame
    have hb := (World.PlaysOn.of_game? hg).of_alike ha
    dsimp only
    split
    · exact Std.Refl.refl v
    · next hfits =>
      refine Steps.related_bind (Std.Refl.refl v) fun _ t ht => ?_
      cases ht
      refine update_handled hb fun x hx => ?_
      subst hx
      exact .offer (by simpa using hfits) source
  · exact Keeps.stop _

theorem triggerForced_handled (catalog : Catalog) (p : PlayerId) :
    Keeps (World.Handled request) (triggerForced catalog p) := by
  refine (alike_handled (readPlayer_alike p)).bind fun player => ?_
  split
  · exact Keeps.pure _
  · split
    · exact Keeps.pure _
    · refine (alike_handled (findCard_alike _ _)).bind fun corporation => ?_
      split
      · exact Keeps.stop _
      · refine (offerForced_handled _ _ _).bind fun _ => ?_
        exact (wrote_handled (update_aside p (by simp [PlayerField.write]))).bind fun _ => Keeps.pure _

theorem completeForced_aside (p : PlayerId) (source : String) :
    Keeps (World.Wrote Entry.Aside) (completeForced p source) := by
  refine Keeps.bind (fun w => (readPlayer_alike p w).wrote) fun player => ?_
  split
  · exact Keeps.pure _
  · split
    · exact update_aside p (by simp [PlayerField.write])
    · exact Keeps.pure _

theorem watchForced_handled (catalog : Catalog) (e : Event) :
    Keeps (World.Handled request) (watchForced catalog e) := by
  refine (alike_handled gameId_alike).bind fun game => ?_
  split
  · exact Keeps.pure _
  · split
    · split
      · refine (alike_handled readGame_alike).bind fun game => ?_
        split
        · exact (triggerForced_handled _ _).bind fun _ => Keeps.pure _
        · exact Keeps.pure _
      · exact Keeps.pure _
    · exact wrote_handled (completeForced_aside _ _)
    · split
      · exact wrote_handled (completeForced_aside _ _)
      · exact Keeps.pure _
    · exact Keeps.pure _

end Engine

theorem Listener.react_handled {request : Request} (book : Rulebook) (l : Listener) (e : Event) :
    Keeps (World.Handled request) (l.react book e) := by
  cases l with
  | recorder => exact fun w => ⟨rfl, .refl⟩
  | forcedAction => exact (Engine.watchForced_handled _ _).bind fun _ => Keeps.pure _
  | effect owner standing =>
    intro w
    rcases h : standing.react book.rules owner e w with ⟨r, v⟩
    show World.Handled request w (standing.react book.rules owner e w).2
    rw [h]
    rcases CardEffect.react_cases h with ⟨hv, -⟩ | ⟨player, plan, u, -, -, hplan, hu, hc⟩
    · exact hv.handled
    · have hcommit := (CardEffect.plan_passive hplan).commit_wrote book.rules false
      exact hu.handled.trans ((hcommit.apply hc).mono Entry.Passive.aside).handled

section Committed

variable {request : Request} {board : Board} {x y : Player} {w v : World}

/-- A record that has more actions, some of them used up, and more tiles to place. -/
theorem Player.handled {more : List CardAction} {used : Option (CardId × Nat)} {source : String}
    {tiles : List TileKind} (hid : y.id = x.id)
    (hactions : Plan.useUp (x.actions ++ more) used = .ok y.actions)
    (hqueue : y.queue = (x.withTiles board source tiles).queue)
    (hoffer : y.tileOffer = (x.withTiles board source tiles).tileOffer) :
    ReflTransGen (Player.Handling board request) x y := by
  -- everything else first, then the actions, then the tiles
  let rest : Player := { y with actions := x.actions, queue := x.queue, tileOffer := x.tileOffer }
  let acted : Player := { rest with actions := y.actions }
  have haside : x.Handling board request rest := .aside hid rfl rfl rfl
  have hact : rest.Handling board request acted := .act hactions
  have htiles : acted.withTiles board source tiles = y :=
    (Player.withTiles_eq (show acted.id = x.id from hid) rfl rfl board source tiles).trans
      (by rw [← hqueue, ← hoffer])
  have hqueued : acted.Handling board request y := htiles ▸ .queue source tiles
  exact ((ReflTransGen.single haside).tail hact).tail hqueued

/-- The game changes but for its board, and one player's record. -/
theorem Records.handled_change {r : Records} {g : GameId} {u : Game → Game}
    (hu : ∀ game, (u game).board = game.board) (played : r.PlaysOn g board)
    (there : r.player? g x.id = some x) (h : ReflTransGen (Player.Handling board request) x y) :
    ReflTransGen (Handling g request) r ((r.changeGame g u).changePlayer g x.id fun _ => y) := by
  have hplayed : (r.changeGame g u).PlaysOn g board := fun game hg => by
    rw [game?_changeGame] at hg
    obtain ⟨game', hgame, rfl⟩ := Option.map_eq_some_iff.mp hg
    exact (hu game').trans (played game' hgame)
  have hthere : (r.changeGame g u).player? g x.id = some x := (player?_changeGame u).trans there
  exact ReflTransGen.head (.game hu) (handled_player hplayed hthere h).2

theorem World.Reached.handled {z : Position} (h : w.Reached z v) (hp : w.player? x.id = some x)
    (hb : w.PlaysOn board) (hid : z.player.id = x.id)
    (hz : ReflTransGen (Player.Handling board request) x z.player) : Handled request w v := by
  refine ⟨h.game_eq, ?_⟩
  rw [h.records, hid]
  exact Records.handled_change (fun _ => rfl) hb hp hz

theorem Placed.handled {game : Game} {offer : TileOffer} {c : Coord}
    (hg : w.records.game? w.game = some game) (hp : w.player? x.id = some x)
    (h : Placed w game x offer c board v) : World.Handled (.call (.act x.id (.place c))) w v := by
  obtain ⟨bonus, hoccupied⟩ := h.occupied
  obtain ⟨changes, resources, rating, hr⟩ := h.records
  refine ⟨h.game, ?_⟩
  have hgame : (w.records.moveOn w.game changes).game? w.game =
      some { game with parameters := game.parameters.after changes } := by
    rw [Records.moveOn, Records.game?_changeGame, hg]
    rfl
  have hthere : (w.records.moveOn w.game changes).player? w.game x.id = some x :=
    (Records.player?_changeGame _).trans hp
  rw [hr]
  exact (ReflTransGen.single (.game fun _ => rfl)).tail
    (.place rfl hthere hgame h.offered h.listed hoccupied resources rating)

end Committed

end MarsRules
