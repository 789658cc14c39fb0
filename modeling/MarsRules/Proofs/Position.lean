import MarsRules.Proofs.Moves

/-! How far a transaction has come with the records, as long as nothing is refused: one player's
record, the changes of the parameters, the subscriptions and the decks. Every part that succeeds
moves on one of them. -/

namespace MarsRules

/-- A player's record, the changes made to the parameters, the session and the decks. -/
structure Position where
  player : Player
  changes : List ParameterChange
  session : Session
  decks : Table (List CardId)

/-- The second world is the first with the position in place of what the first has there. -/
structure World.Reached (w : World) (x : Position) (v : World) : Prop where
  there : ∃ y, w.player? x.player.id = some y
  game : x.session.game = w.game
  session : v.session = x.session
  decks : v.store.decks = x.decks
  records : v.records =
    (w.records.moveOn w.game x.changes).changePlayer w.game x.player.id fun _ => x.player
  /-- What was moved was there. -/
  parameters : v.parameters = w.parameters.after x.changes

/-- The game is played on this board, if it is there. -/
def Records.PlaysOn (r : Records) (g : GameId) (board : Board) : Prop :=
  ∀ game, r.game? g = some game → game.board = board

theorem Records.exists_playsOn (r : Records) (g : GameId) : ∃ board, r.PlaysOn g board := by
  cases h : r.game? g with
  | none => exact ⟨{}, fun game hg => by simp [h] at hg⟩
  | some game => exact ⟨game.board, fun game' hg => by rw [Option.some.inj (hg.symm.trans h)]⟩

/-- The game of the session is played on this board, if it is there. -/
def World.PlaysOn (w : World) (board : Board) : Prop :=
  ∀ game, w.records.game? w.game = some game → game.board = board

theorem World.PlaysOn.of_game? {w : World} {game : Game} (h : w.records.game? w.game = some game) :
    w.PlaysOn game.board := fun g hg => by rw [Option.some.inj (hg.symm.trans h)]

theorem World.PlaysOn.of_alike {w v : World} {board : Board} (h : w.PlaysOn board) (ha : Alike w v) :
    v.PlaysOn board := fun game hg => h game (by
  show w.store.records.game? w.session.game = _
  rw [← ha.store.records, ← ha.session]
  exact hg)

theorem World.exists_playsOn (w : World) : ∃ board, w.PlaysOn board := w.records.exists_playsOn w.game

namespace World.Reached

variable {w v u : World} {x : Position}

theorem start {player : Player} (h : w.player? player.id = some player) :
    Reached w ⟨player, [], w.session, w.store.decks⟩ w where
  there := ⟨player, h⟩
  game := rfl
  session := rfl
  decks := rfl
  records := by
    rw [Records.moveOn_nil]
    refine (Eq.trans (Records.changePlayer_congr fun y hy => ?_) Records.changePlayer_id).symm
    exact Option.some.inj (h.symm.trans hy)
  parameters := rfl

theorem game_eq (h : Reached w x v) : v.game = w.game := (congrArg Session.game h.session).trans h.game

theorem alike (h : Reached w x v) (ha : Alike v u) : Reached w x u :=
  ⟨h.there, h.game, ha.session.trans h.session, ha.store.decks.trans h.decks,
    ha.store.records.trans h.records, ha.parameters.trans h.parameters⟩

theorem player? (h : Reached w x v) : v.player? x.player.id = some x.player := by
  obtain ⟨y, hy⟩ := h.there
  show v.records.player? v.game _ = _
  have hy : (w.records.moveOn w.game x.changes).player? w.game x.player.id = some y := by
    rw [Records.moveOn, Records.player?_changeGame]; exact hy
  rw [h.game_eq, h.records, Records.player?_changePlayer fun _ _ => rfl, hy]
  rfl

theorem change (h : Reached w x v) {f : Player → Player} (hf : (f x.player).id = x.player.id)
    (hu : v.Becomes (v.records.changePlayer v.game x.player.id f) u) :
    Reached w { x with player := f x.player } u where
  there := by rw [hf]; exact h.there
  game := h.game
  session := hu.session.trans h.session
  decks := hu.decks.trans h.decks
  records := by
    rw [hu.records, h.game_eq, h.records, Records.changePlayer_changePlayer fun _ _ => rfl]
    show _ = Records.changePlayer _ _ (f x.player).id _
    rw [hf]
    rfl
  parameters := by
    refine Eq.trans ?_ h.parameters
    unfold World.parameters
    rw [hu.game, hu.records, Records.game?_changePlayer]

theorem playsOn {board : Board} (h : Reached w x v) (hb : w.PlaysOn board) : v.PlaysOn board := by
  intro g hg
  rw [h.game_eq, h.records, Records.game?_changePlayer, Records.moveOn, Records.game?_changeGame] at hg
  obtain ⟨game, hgame, rfl⟩ := Option.map_eq_some_iff.mp hg
  exact hb game hgame

end World.Reached

/-- A player's record with tiles to place. If no offer is open, the first tile that fits the board
is offered and those before it are dropped. -/
def Player.withQueue (x : Player) (board : Board) (q : TileQueue) : Player :=
  if x.tileOffer.isSome then { x with queue := some q }
  else match q.tiles.dropWhile fun t => board.legalHexes t x.id = [] with
    | [] => { x with queue := none }
    | tile :: rest => { x with
        queue := if rest = [] then none else some { q with tiles := rest }
        tileOffer := some { tile, hexes := board.legalHexes tile x.id, source := q.source } }

/-- A player's record with more tiles to place, behind those that wait. -/
def Player.withTiles (x : Player) (board : Board) (source : String) (tiles : List TileKind) : Player :=
  if tiles = [] then x
  else x.withQueue board
    { source := x.queue.elim source (·.source), tiles := x.queue.elim [] (·.tiles) ++ tiles }

/-- What becomes of the queue and the offer goes by nothing else in the record, which stays. -/
theorem Player.withTiles_eq {x y : Player} (hid : y.id = x.id) (hq : y.queue = x.queue)
    (ho : y.tileOffer = x.tileOffer) (board : Board) (source : String) (tiles : List TileKind) :
    y.withTiles board source tiles = { y with
      queue := (x.withTiles board source tiles).queue
      tileOffer := (x.withTiles board source tiles).tileOffer } := by
  unfold withTiles withQueue
  rw [hid, hq, ho]
  split
  · rw [← hid, ← hq, ← ho]
  · split
    · rfl
    · split <;> rfl

/-- A player's record when it is time for the next of the tiles that wait. -/
def Player.advance (x : Player) (board : Board) : Player := x.queue.elim x (x.withQueue board)

theorem Player.withQueue_eq (x : Player) (board : Board) (q : TileQueue) : x.withQueue board q = { x with
    queue := (x.withQueue board q).queue
    tileOffer := (x.withQueue board q).tileOffer } := by
  unfold withQueue
  split
  · rfl
  · split <;> rfl

theorem Player.advance_eq (x : Player) (board : Board) : x.advance board = { x with
    queue := (x.advance board).queue
    tileOffer := (x.advance board).tileOffer } := by
  unfold advance
  cases x.queue with
  | none => rfl
  | some q => exact x.withQueue_eq board q

@[simp] theorem Player.withQueue_id (x : Player) (board : Board) (q : TileQueue) :
    (x.withQueue board q).id = x.id := by rw [withQueue_eq]

@[simp] theorem Player.advance_id (x : Player) (board : Board) : (x.advance board).id = x.id := by
  rw [advance_eq]

@[simp] theorem Player.withQueue_actions (x : Player) (board : Board) (q : TileQueue) :
    (x.withQueue board q).actions = x.actions := by rw [withQueue_eq]

@[simp] theorem Player.withTiles_actions (x : Player) (board : Board) (source : String)
    (tiles : List TileKind) : (x.withTiles board source tiles).actions = x.actions := by
  unfold withTiles
  split <;> simp

@[simp] theorem Player.advance_actions (x : Player) (board : Board) :
    (x.advance board).actions = x.actions := by rw [advance_eq]

theorem Player.advance_of_none {x : Player} (h : x.queue = none) (board : Board) :
    x.advance board = x := by simp [advance, h]

theorem Player.advance_of_offer {x : Player} (h : x.tileOffer.isSome) (board : Board) :
    x.advance board = x := by
  unfold advance
  cases hq : x.queue with
  | none => rfl
  | some q =>
    show x.withQueue board q = x
    rw [withQueue, if_pos h, ← hq]

theorem Player.advance_of_idle {x : Player} (h : x.tileOffer.isSome ∨ x.queue = none) (board : Board) :
    x.advance board = x := h.elim (advance_of_offer · board) (advance_of_none · board)

theorem Player.withTiles_eq_advance (x : Player) (board : Board) (source : String)
    {tiles : List TileKind} (h : tiles ≠ []) : x.withTiles board source tiles =
      { x with queue := some (TileQueue.extend source tiles x.queue) }.advance board := by
  unfold withTiles
  rw [if_neg h]
  cases hq : x.queue <;> rfl

theorem Board.firstPlaceable?_eq (b : Board) (p : PlayerId) (tiles : List TileKind) :
    b.firstPlaceable? p tiles = match tiles.dropWhile fun t => b.legalHexes t p = [] with
      | [] => none
      | tile :: rest => some (tile, b.legalHexes tile p, rest) := by
  induction tiles with
  | nil => rfl
  | cons tile rest ih =>
    unfold firstPlaceable?
    split
    · next h => simp only [ih, List.dropWhile_cons, h, decide_true, if_true]
    · next h =>
      have h : b.legalHexes tile p ≠ [] := h
      rw [List.dropWhile_cons_of_neg (by simpa using h)]

namespace Engine

variable {w v u : World} {x : Position}

theorem update_reached {p : PlayerId} {f : PlayerField} (h : update p f v = (.ok (), u))
    (hx : w.Reached x v) (hp : p = x.player.id) : w.Reached { x with player := f.put x.player } u := by
  obtain ⟨-, hs, hr, hd⟩ := update_ok h
  exact hx.change (f := f.put) (by simp) ⟨hs, hd, hp ▸ hr⟩

theorem addTiles_reached {p : PlayerId} {source : String} {tiles : List TileKind}
    (h : onStore (Store.addTiles v.game p source tiles) v = (.ok (), u)) (ht : tiles ≠ [])
    (hx : w.Reached x v) (hp : p = x.player.id) : w.Reached { x with player :=
      { x.player with queue := some (TileQueue.extend source tiles x.player.queue) } } u := by
  obtain ⟨t, hadd, rfl⟩ := onStore_eq_ok.mp h
  obtain ⟨-, hr, hd⟩ := Store.addTiles_changes hadd ht
  exact hx.change (f := fun y => { y with queue := some (TileQueue.extend source tiles y.queue) }) rfl
    ⟨rfl, hd, hp ▸ hr⟩

/-- A player with an offer, or without a queue, is left alone. Otherwise the queue is written first, and
then the offer, if any tile fits. -/
theorem offerNext_of_read {p : PlayerId} {player : Player} (board : Board)
    (h : readPlayer p v = (.ok player, u)) :
    offerNext p board v =
      (if player.tileOffer.isSome ∨ player.queue = none then pure none
      else do
        update p (.queue (player.advance board).queue)
        match (player.advance board).tileOffer with
        | none => return none
        | some offer =>
          update p (.tileOffer (some offer))
          return some offer : Engine (Option TileOffer)) u := by
  obtain rfl := World.player?_id (readPlayer_ok h).1
  simp only [offerNext, Steps.bind_apply, h]
  rcases ho : player.tileOffer with _ | offer
  · rcases hq : player.queue with _ | q
    · simp
    · simp only [Board.firstPlaceable?_eq]
      rcases hd : q.tiles.dropWhile fun t => decide (board.legalHexes t player.id = []) with _ | ⟨_, _⟩
        <;> simp [Player.advance, Player.withQueue, TileQueue.remaining, hq, ho, hd]
  · simp

/-- What is offered next is the first tile that fits, if any tiles wait and no offer is open. -/
theorem offerNext_reached {p : PlayerId} {board : Board} {o : Option TileOffer}
    (h : offerNext p board v = (.ok o, u)) (hx : w.Reached x v) (hp : p = x.player.id) :
    w.Reached { x with player := x.player.advance board } u := by
  subst hp
  obtain ⟨player, v₁, hread, -⟩ := Steps.bind_eq_ok.mp h
  obtain ⟨hplayer, ha⟩ := readPlayer_ok hread
  obtain rfl := Option.some.inj (hx.player?.symm.trans hplayer)
  rw [offerNext_of_read board hread] at h
  have hx := hx.alike ha
  split at h
  · next hidle =>
    obtain ⟨-, rfl⟩ := Steps.pure_eq_ok.mp h
    rwa [Player.advance_of_idle hidle]
  · next hwaits =>
    have ho : x.player.tileOffer = none := by
      rw [not_or] at hwaits
      simpa using hwaits.1
    obtain ⟨_, v₂, hqueue, h⟩ := Steps.bind_eq_ok.mp h
    have hx := update_reached hqueue hx rfl
    rw [Player.advance_eq]
    cases hoffer : (x.player.advance board).tileOffer with
    | none =>
      simp only [hoffer] at h
      obtain ⟨-, rfl⟩ := Steps.pure_eq_ok.mp h
      simpa [PlayerField.put, ho] using hx
    | some offer =>
      simp only [hoffer] at h
      obtain ⟨_, v₃, hwritten, h⟩ := Steps.bind_eq_ok.mp h
      obtain ⟨-, rfl⟩ := Steps.pure_eq_ok.mp h
      simpa [PlayerField.put] using update_reached hwritten hx rfl

theorem advanceQueue_reached {board : Board} {y : Player} {source : String} {tiles : List TileKind}
    {o : Option TileOffer} (h : advanceQueue y.id v = (.ok o, u)) (ht : tiles ≠ [])
    (hx : w.Reached
      { x with player := { y with queue := some (TileQueue.extend source tiles y.queue) } } v)
    (hb : w.PlaysOn board) : w.Reached { x with player := y.withTiles board source tiles } u := by
  obtain ⟨g, v₁, hgame, h⟩ := Steps.bind_eq_ok.mp h
  obtain ⟨hgame, ha⟩ := readGame_ok hgame
  obtain rfl := hx.playsOn hb g hgame
  have hoffered := offerNext_reached h (hx.alike ha) rfl
  rwa [← y.withTiles_eq_advance g.board source ht] at hoffered

theorem drawCards_reached {n : Nat} {cards : List CardId}
    (h : onStore (Store.drawCards v.game n) v = (.ok cards, u)) (hx : w.Reached x v) :
    cards = ((x.decks.get? w.game).getD []).take n ∧
      w.Reached { x with decks := x.decks.put w.game (((x.decks.get? w.game).getD []).drop n) } u := by
  obtain ⟨t, ht, rfl⟩ := onStore_eq_ok.mp h
  obtain ⟨deck, hdeck, hcards, hr, hd⟩ := Store.drawCards_ok ht
  rw [hx.decks, hx.game_eq] at hdeck hd
  rw [hdeck]
  refine ⟨hcards, hx.there, hx.game, hx.session, hd, hr.trans hx.records, Eq.trans ?_ hx.parameters⟩
  show t.records.parameters v.game = v.records.parameters v.game
  rw [hr]
  rfl

end Engine

namespace Noted

variable {w : World} {x : Position} {player : Player} {f : PlayerField} {s t : World × List Change}

theorem overwrite_reached (h : overwrite player f s = (.ok (), t)) (hx : w.Reached x s.1)
    (hp : player.id = x.player.id) : w.Reached { x with player := f.put x.player } t.1 :=
  hx.change (f := f.put) (by simp) (hp ▸ overwrite_ok h)

/-- A write that is left out where it would change nothing might as well be made. -/
theorem when_overwrite_reached {c : Bool} (h : Steps.when c (overwrite player f) s = (.ok (), t))
    (hx : w.Reached x s.1) (hp : player.id = x.player.id) (hc : c = false → f.put x.player = x.player) :
    w.Reached { x with player := f.put x.player } t.1 := by
  rcases Steps.when_eq_ok.mp h with ⟨-, h⟩ | ⟨hfalse, rfl⟩
  · exact overwrite_reached h hx hp
  · rwa [hc hfalse]

theorem changeSession_reached {f : Session → Session} {a : Unit}
    (h : (Engine.changeSession f : Noted Unit) s = (.ok a, t)) (hx : w.Reached x s.1)
    (hf : (f x.session).game = x.session.game) :
    w.Reached { x with session := f x.session } t.1 := by
  obtain ⟨u, hu, rfl⟩ := ofEngine_eq_ok.mp (show ofEngine _ (s.1, s.2) = _ from h)
  obtain rfl : _ = u := congrArg Prod.snd hu
  refine ⟨hx.there, hf.trans hx.game, congrArg f hx.session, hx.decks, hx.records, Eq.trans ?_ hx.parameters⟩
  have hgame : (f s.1.session).game = s.1.game := by
    rw [hx.session, hf, hx.game_eq, hx.game]
  show s.1.records.parameters (f s.1.session).game = _
  rw [hgame]
  rfl

theorem subscribe_reached {owner : PlayerId} {noted : List CardId} {effects : List CardEffect}
    (h : subscribe owner noted effects s = (.ok (), t)) (hx : w.Reached x s.1) :
    w.Reached
      { x with session := effects.foldl (fun s e => (s.subscribe owner e).2) x.session } t.1 := by
  induction effects generalizing noted s x with
  | nil =>
    obtain ⟨-, rfl⟩ := Steps.pure_eq_ok.mp h
    exact hx
  | cons e rest ih =>
    obtain ⟨_, s₁, h₁, h⟩ := Steps.bind_eq_ok.mp h
    obtain ⟨_, s₂, h₂, h⟩ := Steps.bind_eq_ok.mp h
    have hx₁ : w.Reached x s₁.1 := by
      rcases Steps.when_eq_ok.mp h₁ with ⟨-, h₁⟩ | ⟨-, rfl⟩
      · cases h₁; exact hx
      · exact hx
    exact ih h (changeSession_reached h₂ hx₁ (Session.subscribe_game ..))

/-- The steps of a plan move the parameters, and count for the player's rating. -/
theorem applySteps_reached {rules : Rules} {p : PlayerId} {steps : List (GlobalParameter × Int)}
    {changes : List ParameterChange} (h : applySteps rules p steps s = (.ok changes, t))
    (hx : w.Reached x s.1) (hp : p = x.player.id) (hc : x.changes = []) :
    rules.Admits steps ∧ changes = ParameterChange.ofSteps rules w.parameters steps ∧
    w.Reached { x with
      player := { x.player with rating := addInt32 x.player.rating (ParameterChange.rating rules changes) }
      changes } t.1 := by
  have h : applySteps rules p steps (s.1, s.2) = _ := h
  obtain ⟨hch, hpar, ht⟩ := applySteps_ok h
  have hrecords : s.1.records = w.records.changePlayer w.game x.player.id fun _ => x.player := by
    rw [hx.records, hc, Records.moveOn_nil]
  have hw : s.1.parameters = w.parameters := by
    unfold World.parameters
    rw [hx.game_eq, hrecords, Records.game?_changePlayer]
  refine ⟨applySteps_admits h, hch.trans (by rw [hw]), hx.there, hx.game, ht.session.trans hx.session,
    ht.decks.trans hx.decks, ht.records.trans ?_, hw ▸ hpar⟩
  rw [hx.game_eq, hrecords, hp, Records.moveOn, Records.changeGame_changePlayer,
    Records.changePlayer_changePlayer fun _ _ => rfl]
  rfl

end Noted

/-- A player's record with drawn cards to choose from, all of them free, behind those that wait. -/
def Player.withDraw (x : Player) (source : String) (cards : List CardId) (n : Nat) : Player :=
  if n = 0 then x
  else { x with drawOffer := some (x.drawOffer.elim
    { cards, free := n, maxBought := 0, price := 0, source }
    fun o => { o with cards := o.cards ++ cards, free := saturateNat32 (o.free + n) }) }

theorem Player.withDraw_eq {x y : Player} (h : y.drawOffer = x.drawOffer) (source : String)
    (cards : List CardId) (n : Nat) :
    y.withDraw source cards n = { y with drawOffer := (x.withDraw source cards n).drawOffer } := by
  unfold withDraw
  rw [h]
  split
  · rw [← h]
  · rfl

namespace Plan

variable {w : World} {x : Position} {plan : Plan} {s t : World × List Change} {board : Board}

/-- The player's record with what the plan adds to it, tiles and cards drawn apart. -/
def addTo (plan : Plan) (y : Player) : Player :=
  { y with
    production := y.production + plan.production
    actions := y.actions ++ plan.actions
    effects := y.effects ++ plan.effects
    points := addInt32 y.points plan.points
    resources := y.resources + plan.resources
    rating := addInt32 y.rating plan.rating
    storage := addTokens y.storage plan.storage }

theorem addTo_of_isEmpty {plan : Plan} (h : plan.isEmpty = true) (y : Player) : plan.addTo y = y := by
  simp only [isEmpty, Bool.and_eq_true, ResourceSet.isZero_iff, List.isEmpty_iff, beq_iff_eq] at h
  obtain ⟨⟨⟨⟨⟨⟨⟨⟨⟨⟨hproduction, hactions⟩, -⟩, heffects⟩, hpoints⟩, hresources⟩, hrating⟩, hstorage⟩,
    -⟩, -⟩, -⟩ := h
  simp only [addTo, hproduction, hactions, heffects, hpoints, hresources, hrating, hstorage,
    ResourceSet.add_zero, addTokens, List.append_nil, List.foldl_nil, addInt32_zero]

/-- The same, with the tiles. -/
def record (plan : Plan) (board : Board) (y : Player) : Player :=
  (plan.addTo y).withTiles board plan.source plan.tiles

theorem record_eq (plan : Plan) (board : Board) (y : Player) :
    plan.record board y = { plan.addTo y with
      queue := (y.withTiles board plan.source plan.tiles).queue
      tileOffer := (y.withTiles board plan.source plan.tiles).tileOffer } :=
  Player.withTiles_eq (x := y) (y := plan.addTo y) rfl rfl rfl board plan.source plan.tiles

theorem writeTiles_reached {y : Player} (h : plan.writeTiles y s = (.ok (), t)) (hx : w.Reached x s.1)
    (hp : plan.player = x.player.id) (hb : w.PlaysOn board) :
    w.Reached { x with player := x.player.withTiles board plan.source plan.tiles } t.1 := by
  rcases Steps.when_eq_ok.mp h with ⟨ht, h⟩ | ⟨ht, rfl⟩
  · have ht : plan.tiles ≠ [] := by simpa using ht
    obtain ⟨_, s₁, h₁, h⟩ := Steps.bind_eq_ok.mp h
    cases h₁
    obtain ⟨g, s₂, h₂, h⟩ := Steps.bind_eq_ok.mp h
    cases h₂
    obtain ⟨_, s₃, h₃, h⟩ := Steps.bind_eq_ok.mp h
    obtain ⟨v, hv, rfl⟩ := Noted.ofEngine_eq_ok.mp h₃
    obtain ⟨o, s₄, h₄, h⟩ := Steps.bind_eq_ok.mp h
    obtain ⟨u, hu, rfl⟩ := Noted.ofEngine_eq_ok.mp h₄
    obtain ⟨-, rfl⟩ := Steps.pure_eq_ok.mp h
    exact Engine.advanceQueue_reached (hp ▸ hu) ht (Engine.addTiles_reached hv ht hx hp) hb
  · have ht : plan.tiles = [] := by simpa using ht
    simpa [Player.withTiles, ht] using hx

theorem mergeDraw_eq (source : CardId) (cards : List CardId) (n : Nat) (o : Option DrawOffer) :
    mergeDraw source cards n o = o.elim { cards, free := n, maxBought := 0, price := 0, source }
      fun o => { o with cards := o.cards ++ cards, free := saturateNat32 (o.free + n) } := by
  cases o <;> rfl

theorem writeDraw_reached {y : Player} (h : plan.writeDraw y s = (.ok (), t)) (hx : w.Reached x s.1)
    (hy : y.id = x.player.id) (hd : y.drawOffer = x.player.drawOffer) :
    w.Reached { x with
      player := x.player.withDraw plan.source (((x.decks.get? w.game).getD []).take plan.draw) plan.draw
      decks := if plan.draw = 0 then x.decks
        else x.decks.put w.game (((x.decks.get? w.game).getD []).drop plan.draw) } t.1 := by
  rcases Steps.when_eq_ok.mp h with ⟨hn, h⟩ | ⟨hn, rfl⟩
  · have hn : plan.draw ≠ 0 := by simpa using hn
    obtain ⟨g, s₁, h₁, h⟩ := Steps.bind_eq_ok.mp h
    cases h₁
    obtain ⟨cards, s₂, h₂, h⟩ := Steps.bind_eq_ok.mp h
    obtain ⟨v, hv, rfl⟩ := Noted.ofEngine_eq_ok.mp h₂
    obtain ⟨rfl, hdrawn⟩ := Engine.drawCards_reached hv hx
    have ht := Noted.overwrite_reached h hdrawn hy
    rw [hd] at ht
    simpa [Player.withDraw, hn, PlayerField.put, mergeDraw_eq] using ht
  · have hn : plan.draw = 0 := by simpa using hn
    simpa [Player.withDraw, hn] using hx

theorem writeActions_reached {y : Player} (h : plan.writeActions y s = (.ok (), t))
    (hx : w.Reached x s.1) (hy : y.id = x.player.id) (ha : y.actions = x.player.actions) :
    ∃ actions, useUp (x.player.actions ++ plan.actions) plan.used = .ok actions ∧
      w.Reached { x with player := { x.player with actions } } t.1 := by
  rcases Steps.when_eq_ok.mp h with ⟨-, h⟩ | ⟨hc, rfl⟩
  · obtain ⟨actions, s₁, h₁, h⟩ := Steps.bind_eq_ok.mp h
    obtain ⟨u, hu, rfl⟩ := Noted.ofEngine_eq_ok.mp h₁
    obtain ⟨hused, rfl⟩ := Engine.ofExcept_eq_ok.mp (show Engine.ofExcept _ _ = _ from hu)
    exact ⟨actions, ha ▸ hused, Noted.overwrite_reached h hx hy⟩
  · obtain ⟨hactions, hused⟩ : plan.actions = [] ∧ plan.used = none := by simpa using hc
    exact ⟨x.player.actions, by simp [hactions, hused, useUp], hx⟩

theorem writeEffects_reached {y : Player} (h : plan.writeEffects y true s = (.ok (), t))
    (hx : w.Reached x s.1) (hy : y.id = x.player.id) (he : y.effects = x.player.effects) :
    w.Reached { x with
      player := { x.player with effects := x.player.effects ++ plan.effects }
      session := (plan.effects.filter (·.isPassive)).foldl
        (fun s e => (s.subscribe plan.player e).2) x.session } t.1 := by
  rcases Steps.when_eq_ok.mp h with ⟨-, h⟩ | ⟨hc, rfl⟩
  · obtain ⟨_, s₁, h₁, h⟩ := Steps.bind_eq_ok.mp h
    have hs₁ := Noted.overwrite_reached h₁ hx hy
    rw [he] at hs₁
    exact Noted.subscribe_reached h hs₁
  · have : plan.effects = [] := by simpa using hc
    simpa [this] using hx

theorem writeRecord_reached (h : plan.writeRecord x.player true s = (.ok (), t))
    (hx : w.Reached x s.1) (hp : plan.player = x.player.id) (hb : w.PlaysOn board) :
    ∃ actions, useUp (x.player.actions ++ plan.actions) plan.used = .ok actions ∧
      w.Reached { x with
        player := { plan.record board x.player with actions }
        session := (plan.effects.filter (·.isPassive)).foldl
          (fun s e => (s.subscribe plan.player e).2) x.session } t.1 := by
  have hzero {a : ResourceSet} (y : ResourceSet) (ha : (!a.isZero) = false) : y + a = y := by
    rw [(ResourceSet.isZero_iff a).mp (by simpa using ha), ResourceSet.add_zero]
  obtain ⟨y, changes, session, decks⟩ := x
  obtain ⟨_, s₁, hproduction, h⟩ := Steps.bind_eq_ok.mp h
  obtain ⟨_, s₂, hactions, h⟩ := Steps.bind_eq_ok.mp h
  obtain ⟨_, s₃, heffects, h⟩ := Steps.bind_eq_ok.mp h
  obtain ⟨_, s₄, hpoints, h⟩ := Steps.bind_eq_ok.mp h
  obtain ⟨_, s₅, hresources, h⟩ := Steps.bind_eq_ok.mp h
  obtain ⟨_, s₆, hrating, h⟩ := Steps.bind_eq_ok.mp h
  obtain ⟨_, s₇, hstorage, htiles⟩ := Steps.bind_eq_ok.mp h
  have h₁ := Noted.when_overwrite_reached hproduction hx rfl fun hc => by
    simp only [PlayerField.put, hzero _ hc]
  obtain ⟨actions, hused, h₂⟩ := writeActions_reached hactions h₁ rfl rfl
  have h₃ := writeEffects_reached heffects h₂ rfl rfl
  have h₄ := Noted.when_overwrite_reached hpoints h₃ rfl fun hc => by
    have : plan.points = 0 := by simpa using hc
    simp [PlayerField.put, this]
  have h₅ := Noted.when_overwrite_reached hresources h₄ rfl fun hc => by
    simp only [PlayerField.put, hzero _ hc]
  have h₆ := Noted.when_overwrite_reached hrating h₅ rfl fun hc => by
    have : plan.rating = 0 := by simpa using hc
    simp [PlayerField.put, this]
  have h₇ := Noted.when_overwrite_reached hstorage h₆ rfl fun hc => by
    have : plan.storage = [] := by simpa using hc
    simp [PlayerField.put, this, addTokens]
  have h₇ : w.Reached ⟨{ plan.addTo y with actions }, changes, (plan.effects.filter
      (·.isPassive)).foldl (fun s e => (s.subscribe plan.player e).2) session, decks⟩ s₇.1 := by
    simpa only [PlayerField.put, addTo] using h₇
  have h₈ := writeTiles_reached htiles h₇ hp hb
  refine ⟨actions, hused, ?_⟩
  rw [Player.withTiles_eq (x := y) (y := { plan.addTo y with actions }) rfl rfl rfl] at h₈
  rwa [record_eq]

/-- Where the plan leads to. -/
def reached (plan : Plan) (rules : Rules) (w : World) (board : Board) (x : Position) : Position :=
  let changes := ParameterChange.ofSteps rules w.parameters plan.parameters
  let y := plan.record board x.player
  let y := { y with rating := addInt32 y.rating (ParameterChange.rating rules changes) }
  let deck := (x.decks.get? w.game).getD []
  { player := y.withDraw plan.source (deck.take plan.draw) plan.draw
    changes
    session := (plan.effects.filter (·.isPassive)).foldl
      (fun s e => (s.subscribe plan.player e).2) x.session
    decks := if plan.draw = 0 then x.decks else x.decks.put w.game (deck.drop plan.draw) }

theorem reached_player (plan : Plan) (rules : Rules) (w : World) (board : Board) (x : Position) :
    let changes := ParameterChange.ofSteps rules w.parameters plan.parameters
    let deck := (x.decks.get? w.game).getD []
    (plan.reached rules w board x).player = { plan.addTo x.player with
      rating := addInt32 (addInt32 x.player.rating plan.rating) (ParameterChange.rating rules changes)
      queue := (x.player.withTiles board plan.source plan.tiles).queue
      tileOffer := (x.player.withTiles board plan.source plan.tiles).tileOffer
      drawOffer := (x.player.withDraw plan.source (deck.take plan.draw) plan.draw).drawOffer } := by
  intro changes deck
  simp only [reached, record_eq]
  rw [Player.withDraw_eq (x := x.player) (by rfl)]
  rfl

theorem write_reached_using {rules : Rules} {changes : List ParameterChange}
    (h : plan.write rules true s = (.ok changes, t)) (hx : w.Reached x s.1)
    (hp : plan.player = x.player.id) (hc : x.changes = []) (hb : w.PlaysOn board) :
    rules.Admits plan.parameters ∧
      changes = ParameterChange.ofSteps rules w.parameters plan.parameters ∧
      ∃ actions, useUp (x.player.actions ++ plan.actions) plan.used = .ok actions ∧
        let r := plan.reached rules w board x
        w.Reached { r with player := { r.player with actions } } t.1 := by
  obtain ⟨player, s₁, hplayer, h⟩ := Steps.bind_eq_ok.mp h
  obtain ⟨v, hv, rfl⟩ := Noted.ofEngine_eq_ok.mp (show Noted.ofEngine _ (s.1, s.2) = _ from hplayer)
  obtain ⟨hplayer, ha⟩ := Engine.readPlayer_ok hv
  obtain rfl : x.player = player := Option.some.inj (hx.player?.symm.trans (hp ▸ hplayer))
  obtain ⟨_, s₂, hrecord, h⟩ := Steps.bind_eq_ok.mp h
  obtain ⟨moved, s₃, hsteps, h⟩ := Steps.bind_eq_ok.mp h
  obtain ⟨_, s₄, hdraw, h⟩ := Steps.bind_eq_ok.mp h
  obtain ⟨rfl, rfl⟩ := Steps.pure_eq_ok.mp h
  obtain ⟨actions, hused, h₁⟩ := writeRecord_reached hrecord (hx.alike ha) hp hb
  have hid : x.player.id = (plan.record board x.player).id := by rw [record_eq]; rfl
  obtain ⟨hadmits, rfl, h₂⟩ := Noted.applySteps_reached hsteps h₁ (hp.trans hid) hc
  refine ⟨hadmits, rfl, actions, hused, ?_⟩
  have h₃ := writeDraw_reached hdraw h₂ hid (by rw [record_eq]; rfl)
  have hdrawn (y : Player) (cards : List CardId) (n : Nat) :
      { y.withDraw plan.source cards n with actions } =
        { y with actions }.withDraw plan.source cards n := by
    unfold Player.withDraw
    split <;> rfl
  exact (congrArg (fun y => w.Reached ⟨y, _, _, _⟩ _) (hdrawn _ _ _)).mpr h₃

theorem write_reached {rules : Rules} {changes : List ParameterChange}
    (h : plan.write rules true s = (.ok changes, t)) (hx : w.Reached x s.1)
    (hp : plan.player = x.player.id) (hu : plan.used = none) (hc : x.changes = [])
    (hb : w.PlaysOn board) :
    rules.Admits plan.parameters ∧ w.Reached (plan.reached rules w board x) t.1 := by
  obtain ⟨hadmits, -, actions, hused, h⟩ := write_reached_using h hx hp hc hb
  rw [hu] at hused
  obtain rfl := Except.ok.inj hused
  refine ⟨hadmits, ?_⟩
  have hactions : (plan.reached rules w board x).player.actions = x.player.actions ++ plan.actions := by
    rw [reached_player]
    rfl
  rw [← hactions] at h
  exact h

end Plan

end MarsRules
