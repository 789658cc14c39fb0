import MarsRules.Proofs.Boards
import MarsRules.Proofs.Dealing
import MarsRules.Proofs.Settling

/-! The tiles that a player is to place, first come first served. However boards change in between and
whatever is queued behind, the tiles that were requested are taken in the order of their requests: a tile
is dropped where it has no legal hex at its turn, and else offered on all of its legal hexes, one offer at
a time (`TileRun.queue_splits`). -/

namespace MarsRules

/-- The tiles that wait for a player, and the offer in front of them. -/
structure TileLine where
  tiles : List TileKind := []
  offer : Option TileOffer := none
deriving DecidableEq, Repr

def Desk.line (d : Desk) : TileLine := ⟨d.queue.elim [] (·.tiles), d.tileOffer⟩

def World.line (w : World) (p : PlayerId) : TileLine := (w.desk? p).elim {} Desk.line

/-- Something that is done about a player's tiles. -/
inductive TileMove where
  | requested (tiles : List TileKind)
  /-- The tile of this offer is placed, or is not to be placed any more. -/
  | resolved (offer : TileOffer)
  /-- It was time for the next tile on this board, and this offer was made, if any. -/
  | advanced (board : Board) (offer : Option TileOffer)

namespace TileMove

def requests : TileMove → List TileKind
  | requested tiles => tiles
  | _ => []

def look? : TileMove → Option (Board × Option TileOffer)
  | advanced board offer => some (board, offer)
  | _ => none

end TileMove

/-- What a move makes of the line. -/
inductive TileLine.Step (p : PlayerId) : TileLine → TileMove → TileLine → Prop
  | requested {line : TileLine} (tiles : List TileKind) :
      Step p line (.requested tiles) { line with tiles := line.tiles ++ tiles }
  | resolved {line : TileLine} {offer : TileOffer} (isOpen : line.offer = some offer) :
      Step p line (.resolved offer) { line with offer := none }
  /-- The offer that is open has to be resolved first. -/
  | busy {line : TileLine} {offer : TileOffer} (isOpen : line.offer = some offer) (board : Board) :
      Step p line (.advanced board none) line
  /-- None of the tiles fits. -/
  | emptied {tiles : List TileKind} {board : Board} (unfit : ∀ t ∈ tiles, board.legalHexes t p = []) :
      Step p { tiles } (.advanced board none) {}
  /-- The first tile that fits is offered, and those before it are dropped. -/
  | next {before rest : List TileKind} {tile : TileKind} {source : String} {board : Board}
      (unfit : ∀ t ∈ before, board.legalHexes t p = []) (fits : board.legalHexes tile p ≠ []) :
      Step p { tiles := before ++ tile :: rest }
        (.advanced board (some { tile, hexes := board.legalHexes tile p, source }))
        { tiles := rest, offer := some { tile, hexes := board.legalHexes tile p, source } }

/-- One offer at a time: each is made when none is open, and it is the open one that is resolved. -/
def OneByOne : Option TileOffer → List TileMove → Option TileOffer → Prop
  | first, [], last => last = first
  | first, .requested _ :: rest, last => OneByOne first rest last
  | first, .resolved offer :: rest, last => first = some offer ∧ OneByOne none rest last
  | first, .advanced _ none :: rest, last => OneByOne first rest last
  | first, .advanced _ (some offer) :: rest, last => first = none ∧ OneByOne (some offer) rest last

theorem OneByOne.append {first mid last : Option TileOffer} {xs ys : List TileMove}
    (h : OneByOne first xs mid) (h' : OneByOne mid ys last) : OneByOne first (xs ++ ys) last := by
  induction xs generalizing first with
  | nil =>
    obtain rfl : mid = first := h
    exact h'
  | cons x rest ih =>
    match x, h with
    | .requested _, h => exact ih h
    | .resolved _, h => exact ⟨h.1, ih h.2⟩
    | .advanced _ none, h => exact ih h
    | .advanced _ (some _), h => exact ⟨h.1, ih h.2⟩

/-- The turn of some tiles on a board: those that were dropped, and the offer that was made after them. -/
structure TileTurn where
  board : Board
  dropped : List TileKind
  offer : Option TileOffer

namespace TileTurn

def tiles (t : TileTurn) : List TileKind := t.dropped ++ t.offer.toList.map (·.tile)

def look (t : TileTurn) : Board × Option TileOffer := (t.board, t.offer)

/-- Whatever was dropped had no legal hex; what was offered has some, and is offered on those. -/
structure Fair (p : PlayerId) (t : TileTurn) : Prop where
  unfit : ∀ tile ∈ t.dropped, t.board.legalHexes tile p = []
  legal : ∀ offer, t.offer = some offer →
    offer.hexes = t.board.legalHexes offer.tile p ∧ offer.hexes ≠ []

end TileTurn

namespace TileLine

/-- From one line to another by these moves: every tile that waited at first or was requested since has had
its turn, in that order, or is waiting still. -/
structure Splits (p : PlayerId) (first : TileLine) (moves : List TileMove) (last : TileLine) : Prop where
  turns : ∃ turns : List TileTurn, turns.map TileTurn.look = moves.filterMap TileMove.look? ∧
    (∀ t ∈ turns, t.Fair p) ∧
    first.tiles ++ moves.flatMap TileMove.requests = turns.flatMap TileTurn.tiles ++ last.tiles
  oneByOne : OneByOne first.offer moves last.offer

variable {p : PlayerId} {first line line' : TileLine} {moves : List TileMove} {move : TileMove}

theorem Splits.refl (p : PlayerId) (line : TileLine) : Splits p line [] line :=
  ⟨⟨[], rfl, by simp, by simp⟩, rfl⟩

theorem Step.oneByOne (h : Step p line move line') : OneByOne line.offer [move] line'.offer := by
  cases h with
  | requested => rfl
  | resolved isOpen => exact ⟨isOpen, rfl⟩
  | busy => rfl
  | emptied => rfl
  | next => exact ⟨rfl, rfl⟩

theorem Step.turns (h : Step p line move line') : ∃ turns : List TileTurn,
    turns.map TileTurn.look = move.look?.toList ∧ (∀ t ∈ turns, t.Fair p) ∧
      line.tiles ++ move.requests = turns.flatMap TileTurn.tiles ++ line'.tiles := by
  cases h with
  | requested => exact ⟨[], rfl, nofun, rfl⟩
  | resolved => exact ⟨[], rfl, nofun, List.append_nil _⟩
  | busy _ board =>
    refine ⟨[⟨board, [], none⟩], rfl, ?_, List.append_nil _⟩
    exact List.forall_mem_singleton.mpr ⟨nofun, nofun⟩
  | @emptied tiles board unfit =>
    refine ⟨[⟨board, tiles, none⟩], rfl, ?_, by simp [TileMove.requests, TileTurn.tiles]⟩
    exact List.forall_mem_singleton.mpr ⟨unfit, nofun⟩
  | @next before rest tile source board unfit fits =>
    refine ⟨[⟨board, before, some { tile, hexes := board.legalHexes tile p, source }⟩], rfl, ?_,
      by simp [TileMove.requests, TileTurn.tiles]⟩
    refine List.forall_mem_singleton.mpr ⟨unfit, fun offer hoffer => ?_⟩
    cases hoffer
    exact ⟨rfl, fits⟩

theorem Step.goesOn {board : Board} {offer : Option TileOffer}
    (h : Step p line (.advanced board offer) line') (idle : line.offer = none) :
    line'.offer = offer ∧ (offer = none → line'.tiles = []) ∧
      (line.tiles ≠ [] → line'.tiles.length < line.tiles.length) := by
  cases h with
  | busy isOpen => exact absurd (isOpen.symm.trans idle) (by simp)
  | emptied => exact ⟨rfl, fun _ => rfl, List.length_pos_iff.mpr⟩
  | next =>
    refine ⟨rfl, nofun, fun _ => ?_⟩
    simp only [List.length_append, List.length_cons]
    omega

theorem Splits.step (h : Splits p first moves line) (hstep : Step p line move line') :
    Splits p first (moves ++ [move]) line' := by
  obtain ⟨⟨turns, hlooks, hfair, htiles⟩, honce⟩ := h
  obtain ⟨more, hlook, hmore, htaken⟩ := hstep.turns
  refine ⟨⟨turns ++ more, ?_, List.forall_mem_append.mpr ⟨hfair, hmore⟩, ?_⟩,
    honce.append hstep.oneByOne⟩
  · have hmove : [move].filterMap TileMove.look? = move.look?.toList := by cases move <;> rfl
    rw [List.map_append, hlooks, hlook, List.filterMap_append, hmove]
  · calc first.tiles ++ (moves ++ [move]).flatMap TileMove.requests
        = (first.tiles ++ moves.flatMap TileMove.requests) ++ move.requests := by simp
      _ = turns.flatMap TileTurn.tiles ++ (line.tiles ++ move.requests) := by
        rw [htiles, List.append_assoc]
      _ = (turns ++ more).flatMap TileTurn.tiles ++ line'.tiles := by
        rw [htaken, List.flatMap_append, List.append_assoc]

end TileLine

theorem TileQueue.Offers.step {board : Board} {p : PlayerId} {queue queue' : Option TileQueue}
    {offer : Option TileOffer} (h : Offers board p queue offer queue') :
    TileLine.Step p { tiles := queue.elim [] (·.tiles) } (.advanced board offer)
      { tiles := queue'.elim [] (·.tiles), offer } := by
  cases h with
  | idle => exact .emptied (List.forall_mem_nil _)
  | dropped unfit => exact .emptied unfit
  | @next source before rest tile unfit fits =>
    have hrest : (if rest = [] then none else some ({ source, tiles := rest } : TileQueue)).elim []
        (·.tiles) = rest := by
      split
      · next hnil => rw [hnil]; rfl
      · rfl
    rw [hrest]
    exact .next unfit fits

theorem Player.advance_step {x : Player} (h : x.tileOffer = none) (board : Board) :
    TileLine.Step x.id x.desk.line (.advanced board (x.advance board).tileOffer)
      (x.advance board).desk.line := by
  obtain ⟨offer, queue, hoffers, hadvance⟩ := advance_offers h board
  have hline : x.desk.line = { tiles := x.queue.elim [] (·.tiles) } := by rw [← h]; rfl
  rw [hline, hadvance]
  exact hoffers.step

theorem World.Alike.line {w v : World} (h : Alike w v) (p : PlayerId) : v.line p = w.line p := by
  simp only [World.line, desk?_eq, h.player?]

theorem World.line_of_player? {w : World} {p : PlayerId} {x : Player} (h : w.player? p = some x) :
    w.line p = x.desk.line := by rw [line, desk?_of_player? h]; rfl

theorem World.Reached.line {w v : World} {z : Position} (h : w.Reached z v) :
    v.line z.player.id = z.player.desk.line := line_of_player? h.player?

namespace Engine

variable {book : Rulebook} {p : PlayerId} {w u v : World} {x : Player} {board : Board}

theorem addTiles_step {source : String} {tiles : List TileKind}
    (h : onStore (Store.addTiles w.game p source tiles) w = (.ok (), v)) :
    TileLine.Step p (w.line p) (.requested tiles) (v.line p) := by
  suffices hline : v.line p = { w.line p with tiles := (w.line p).tiles ++ tiles } from
    hline ▸ .requested tiles
  obtain ⟨t, ht, rfl⟩ := onStore_eq_ok.mp h
  by_cases hnone : tiles = []
  · subst hnone
    obtain ⟨_, s, hs, ht⟩ := Steps.bind_eq_ok.mp ht
    obtain ⟨-, rfl⟩ := Steps.pure_eq_ok.mp ht
    have halike : World.Alike w { w with store := s } := ⟨rfl, (Store.perform_alike _).apply hs⟩
    rw [List.append_nil, halike.line]
  · obtain ⟨⟨x, hx⟩, -⟩ := Store.addTiles_changes ht hnone
    have hx : w.player? p = some x := hx
    obtain rfl := World.player?_id hx
    rw [(addTiles_reached h hnone (.start hx) rfl).line, World.line_of_player? hx]
    cases hq : x.queue <;> simp [Player.desk, Desk.line, TileQueue.extend, hq]

theorem offerNext_returns {o : Option TileOffer} (h : offerNext p board w = (.ok o, v))
    (hp : w.player? p = some x) : o = if x.tileOffer.isSome then none else (x.advance board).tileOffer := by
  obtain ⟨x', u, hread, -⟩ := Steps.bind_eq_ok.mp h
  obtain rfl := Option.some.inj (hp.symm.trans (readPlayer_ok hread).1)
  rw [offerNext_of_read board hread] at h
  split at h
  · next hidle =>
    obtain ⟨rfl, -⟩ := Steps.pure_eq_ok.mp h
    rw [Player.advance_of_idle hidle]
    cases x.tileOffer <;> rfl
  · next hwaits =>
    rw [if_neg fun ho => hwaits (.inl ho)]
    obtain ⟨_, _, -, h⟩ := Steps.bind_eq_ok.mp h
    cases hoffer : (x.advance board).tileOffer with
    | none =>
      simp only [hoffer] at h
      exact (Steps.pure_eq_ok.mp h).1.symm
    | some offer =>
      simp only [hoffer] at h
      obtain ⟨_, _, -, h⟩ := Steps.bind_eq_ok.mp h
      exact (Steps.pure_eq_ok.mp h).1.symm

theorem offerNext_refused {stop : Stop} (h : offerNext p board w = (.error stop, v)) :
    v.line p = w.line p ∨ w.store.MayFail Write.tileOffer ∧
      ∃ offer line, TileLine.Step p (w.line p) (.advanced board (some offer)) line ∧
        v.line p = { line with offer := none } := by
  rcases Steps.bind_eq_error.mp h with hread | ⟨x, u, hread, -⟩
  · exact .inl (((readPlayer_alike p).apply hread).line p)
  obtain ⟨hp, hsame⟩ := readPlayer_ok hread
  obtain rfl := World.player?_id hp
  rw [offerNext_of_read board hread] at h
  split at h
  · simp at h
  next hwaits =>
  have ho : x.tileOffer = none := by
    rw [not_or] at hwaits
    simpa using hwaits.1
  rcases Steps.bind_eq_error.mp h with h | ⟨_, u', hqueue, h⟩
  · exact .inl (((update_error h).line x.id).trans (hsame.line x.id))
  cases hoffer : (x.advance board).tileOffer with
  | none => simp [hoffer] at h
  | some offer =>
    simp only [hoffer] at h
    rcases Steps.bind_eq_error.mp h with h | ⟨_, _, -, h⟩
    · have hreached := update_reached hqueue ((World.Reached.start hp).alike hsame) rfl
      have hspent : World.Spends False w u' :=
        .trans ((readPlayer_spends x.id).apply hread) ((update_spends x.id _).apply hqueue)
      have hstep := Player.advance_step ho board
      rw [hoffer, ← World.line_of_player? hp] at hstep
      refine .inr ⟨hspent.outages _ (update_mayFail h hreached.player?), offer, _, hstep, ?_⟩
      have hlost : (PlayerField.put (.queue (x.advance board).queue) x).desk.line =
          { (x.advance board).desk.line with offer := none } := by
        simp [Player.desk, Desk.line, PlayerField.put, ho]
      exact ((update_error h).line x.id).trans (hreached.line.trans hlost)
    · simp at h

theorem offerNext_step {o : Option TileOffer} (h : offerNext p board w = (.ok o, v)) :
    TileLine.Step p (w.line p) (.advanced board o) (v.line p) := by
  obtain ⟨x, _, hplayer, -⟩ := Steps.bind_eq_ok.mp h
  have hp := (readPlayer_ok hplayer).1
  obtain rfl := World.player?_id hp
  have hafter : v.line x.id = (x.advance board).desk.line := by
    simpa using (offerNext_reached h (.start hp) rfl).line
  rw [World.line_of_player? hp, hafter, offerNext_returns h hp]
  cases ho : x.tileOffer with
  | none => exact Player.advance_step ho board
  | some offer =>
    rw [Player.advance_of_offer (by simp [ho])]
    exact .busy (show x.desk.line.offer = _ from ho) board

theorem advanceQueue_step {o : Option TileOffer} (h : advanceQueue p w = (.ok o, v))
    (hb : w.store.board? w.game = some board) :
    TileLine.Step p (w.line p) (.advanced board o) (v.line p) := by
  obtain ⟨game, u, hgame, h⟩ := Steps.bind_eq_ok.mp h
  obtain ⟨hgame, halike⟩ := readGame_ok hgame
  obtain rfl : game.board = board := by
    have hgame : w.store.game? w.game = some game := hgame
    simpa [Store.board?, hgame] using hb
  exact halike.line p ▸ offerNext_step h

theorem advanceQueue_refused {stop : Stop} (h : advanceQueue p w = (.error stop, v)) :
    v.line p = w.line p ∨ w.store.MayFail Write.tileOffer ∧
      ∃ board offer line, TileLine.Step p (w.line p) (.advanced board (some offer)) line ∧
        v.line p = { line with offer := none } := by
  rcases Steps.bind_eq_error.mp h with h | ⟨game, u, hgame, h⟩
  · exact .inl ((readGame_alike.apply h).line p)
  have hspent : World.Spends False w u := readGame_spends.apply hgame
  have hsame := (readGame_ok hgame).2.line p
  rcases offerNext_refused h with hline | ⟨hfail, offer, line, hstep, hline⟩
  · exact .inl (hline.trans hsame)
  · exact .inr ⟨hspent.outages _ hfail, game.board, offer, line, hsame ▸ hstep, hline⟩

theorem resolve_step {offer : TileOffer} (h : update p (.tileOffer none) w = (.ok (), v))
    (isOpen : (w.line p).offer = some offer) :
    TileLine.Step p (w.line p) (.resolved offer) (v.line p) := by
  obtain ⟨⟨x, hx⟩, -⟩ := update_ok h
  obtain rfl := World.player?_id hx
  have hline : v.line x.id = { w.line x.id with offer := none } := by
    rw [World.line_of_player? hx]
    exact (update_reached h (.start hx) rfl).line
  exact hline ▸ .resolved isOpen

theorem place_steps {c : Coord} {bonus : ResourceSet} {offer : TileOffer}
    (h : place book p c w = (.ok bonus, v)) (isOpen : (w.line p).offer = some offer)
    (hb : v.store.board? v.game = some board) :
    ∃ line, TileLine.Step p (w.line p) (.resolved offer) line ∧
      TileLine.Step p line (.advanced board (v.line p).offer) (v.line p) := by
  obtain ⟨events, u, hcommit, hannounce⟩ := place_ok h
  obtain ⟨game, player, _, board', hg, hp, hplaced⟩ := commitPlacement_placed hcommit
  obtain ⟨-, _, before, -, -, rfl, hplain⟩ := commitPlacement_events hcommit
  obtain rfl := World.player?_id hp
  obtain ⟨resources, rating, hafter⟩ := hplaced.player? hp
  -- whoever hears of the placement leaves the queue and the offer alone
  have hdesk := World.desk?_of_player? hafter
  obtain ⟨forced, -, hdeals⟩ := announce_heard hplain rfl (by simp [Event.kind]) rfl hdesk hannounce
  have hline : v.line player.id = u.line player.id := by
    rw [World.line, World.line, hdeals.desk?, if_pos (World.desk?_id hdesk).symm, hdesk]
    rfl
  have hboard : v.store.board? u.game = u.store.board? u.game :=
    (announce_over (R := Store.SameBoards) book _).apply hannounce u.game
  rw [hdeals.game, hboard] at hb
  obtain rfl := Option.some.inj ((hplaced.board? hg).symm.trans hb)
  refine ⟨{ w.line player.id with offer := none }, .resolved isOpen, ?_⟩
  rw [hline, World.line_of_player? hafter, World.line_of_player? hp]
  exact Player.advance_step (x := { player with tileOffer := none, resources, rating }) rfl board'

theorem advanceQueue_returns (hw : w.store.Reliable) (hp : (w.player? p).isSome)
    (hb : (w.store.board? w.game).isSome) : ∃ offer v, advanceQueue p w = (.ok offer, v) := by
  have hgame : (w.store.game? w.game).isSome := by simpa [Store.board?] using hb
  have hready : w.Ready True False p :=
    ⟨Option.isSome_iff_exists.mp hgame, Option.isSome_iff_exists.mp hp, nofun, fun _ => hw⟩
  rcases h : advanceQueue p w with ⟨stop | offer, v⟩
  · have hstop := (advanceQueue_sound w hready).stop stop v h
    cases stop with
    | refused e restored => exact absurd trivial hstop.1
    | brokenRange | tooDeep => exact hstop.elim
  · exact ⟨offer, v, rfl⟩

end Engine

/-- What can be done about a player's tiles in the course of a game, in any order. Every call goes through
that is a move; a call that is refused and leaves no trace in the queue and the offer is a step aside. -/
inductive TileRun (p : PlayerId) (w₀ : World) : List TileMove → World → Prop
  | start : TileRun p w₀ [] w₀
  /-- Boards, other players and all other records may change. -/
  | aside {moves : List TileMove} {w v : World} (h : TileRun p w₀ moves w) (game : v.game = w.game)
      (same : v.line p = w.line p) : TileRun p w₀ moves v
  | request {moves : List TileMove} {w v : World} {source : String} {tiles : List TileKind}
      (h : TileRun p w₀ moves w)
      (called : Engine.onStore (Store.addTiles w.game p source tiles) w = (.ok (), v)) :
      TileRun p w₀ (moves ++ [.requested tiles]) v
  | advance {moves : List TileMove} {w v : World} {board : Board} {offer : Option TileOffer}
      (h : TileRun p w₀ moves w) (on : w.store.board? w.game = some board)
      (called : Engine.advanceQueue p w = (.ok offer, v)) :
      TileRun p w₀ (moves ++ [.advanced board offer]) v
  | resolve {moves : List TileMove} {w v : World} {offer : TileOffer} (h : TileRun p w₀ moves w)
      (isOpen : (w.line p).offer = some offer)
      (called : Engine.update p (.tileOffer none) w = (.ok (), v)) :
      TileRun p w₀ (moves ++ [.resolved offer]) v
  /-- The tile is put down, and the next is looked for on the board that has it. -/
  | place {moves : List TileMove} {w v : World} {book : Rulebook} {c : Coord} {bonus : ResourceSet}
      {board : Board} {offer : TileOffer} (h : TileRun p w₀ moves w)
      (isOpen : (w.line p).offer = some offer) (called : Engine.place book p c w = (.ok bonus, v))
      (on : v.store.board? v.game = some board) :
      TileRun p w₀ (moves ++ [.resolved offer, .advanced board (v.line p).offer]) v

namespace TileRun

variable {p : PlayerId} {w₀ w : World} {moves : List TileMove}

theorem splits (run : TileRun p w₀ moves w) : TileLine.Splits p (w₀.line p) moves (w.line p) := by
  induction run with
  | start => exact .refl p _
  | aside _ _ same ih => rwa [same]
  | request _ called ih => exact ih.step (Engine.addTiles_step called)
  | advance _ on called ih => exact ih.step (Engine.advanceQueue_step called on)
  | resolve _ isOpen called ih => exact ih.step (Engine.resolve_step called isOpen)
  | place _ isOpen called on ih =>
    obtain ⟨line, hresolved, hadvanced⟩ := Engine.place_steps called isOpen on
    simpa using (ih.step hresolved).step hadvanced

/-- Whatever is requested, placed and changed meanwhile: the tiles that waited or were requested have had
their turns in that order or are waiting still, each dropped where it fitted nowhere or offered where it
fitted, one offer at a time. Advancing comes back with the next offer or at the end of the queue, and with
fewer tiles that wait; it is refused for nothing but calls that fail, and loses a tile only if the write of
an offer can. -/
theorem queue_splits (run : TileRun p w₀ moves w) :
    TileLine.Splits p (w₀.line p) moves (w.line p) ∧
      (w.store.Reliable → (w.player? p).isSome → (w.store.board? w.game).isSome →
        ∃ offer v, Engine.advanceQueue p w = (.ok offer, v)) ∧
      (∀ stop v, Engine.advanceQueue p w = (.error stop, v) → ¬ w.store.MayFail Write.tileOffer →
        v.line p = w.line p) ∧
      ∀ offer v, Engine.advanceQueue p w = (.ok offer, v) → (w.line p).offer = none →
        (v.line p).offer = offer ∧ (offer = none → (v.line p).tiles = []) ∧
          ((w.line p).tiles ≠ [] → (v.line p).tiles.length < (w.line p).tiles.length) := by
  refine ⟨run.splits, Engine.advanceQueue_returns, fun stop v h hserved => ?_, fun offer v h hidle => ?_⟩
  · exact (Engine.advanceQueue_refused h).resolve_right fun hlost => hserved hlost.1
  · obtain ⟨game, u, hgame, -⟩ := Steps.bind_eq_ok.mp h
    have hgame : w.store.game? w.game = some game := (Engine.readGame_ok hgame).1
    exact (Engine.advanceQueue_step h (by rw [Store.board?, hgame]; rfl)).goesOn hidle

/-- A player with land all around, who is to place an ocean and a city. -/
def colony : World where
  store := {
    games := [("game", { id := "game", board := .hexagon 1 })]
    rosters := [("game", [{ Player.named "player" with
      queue := some { source := "colony", tiles := [.ocean, .city] } }])] }
  session := (Session.new "game" true).watch

def founded : World := (Engine.advanceQueue "player" colony).2

/-- Behind the city, an ocean and a greenery are requested. -/
def granted : World :=
  (Engine.onStore (Store.addTiles founded.game "player" "grant" [.ocean, .greenery]) founded).2

def settled : World :=
  (Engine.place { catalog := {}, rules := {}, depth := 8 } "player" (.axial 0 0) granted).2

def declined : World := (Engine.update "player" (.tileOffer none) settled).2

/-- Both oceans are dropped, each in front of what is offered, and in the end no tile waits. -/
theorem queue_splits_colony :
    let city : TileOffer :=
      { tile := .city, hexes := (Board.hexagon 1).legalHexes .city "player", source := "colony" }
    let moves (greenery : TileOffer) (board board' board'' : Board) : List TileMove :=
      [.advanced board (some city), .requested [.ocean, .greenery], .resolved city,
        .advanced board' (some greenery), .resolved greenery, .advanced board'' none]
    ∃ greenery board board' board'' last, (greenery.tile, greenery.hexes.length) = (.greenery, 6) ∧
      TileRun "player" colony (moves greenery board board' board'') last ∧
      TileLine.Splits "player" { tiles := [.ocean, .city] } (moves greenery board board' board'') {} ∧
      (∃ offer v, Engine.advanceQueue "player" colony = (.ok offer, v) ∧
        (v.line "player").tiles.length < 2) ∧
      (Engine.advanceQueue "stranger" colony).2.line "stranger" = colony.line "stranger" := by
  intro city moves
  have there (w : World) (h : (w.store.board? w.game).isSome) :
      ∃ board, w.store.board? w.game = some board := Option.isSome_iff_exists.mp h
  obtain ⟨board, hboard⟩ := there colony (by decide +kernel)
  obtain ⟨board', hboard'⟩ := there settled (by decide +kernel)
  obtain ⟨board'', hboard''⟩ := there declined (by decide +kernel)
  have hsettled : (settled.line "player").offer.map (fun o => (o.tile, o.hexes.length)) =
      some (.greenery, 6) := by decide +kernel
  obtain ⟨greenery, hgreenery, htile⟩ := Option.map_eq_some_iff.mp hsettled
  have hadvance : Engine.advanceQueue "player" colony = (.ok (some city), founded) :=
    Prod.fst_eq_iff.mp (by decide +kernel)
  have hrequest : Engine.onStore (Store.addTiles founded.game "player" "grant" [.ocean, .greenery])
      founded = (.ok (), granted) := Prod.fst_eq_iff.mp (by decide +kernel)
  have hplace : Engine.place { catalog := {}, rules := {}, depth := 8 } "player" (.axial 0 0) granted =
      (.ok {}, settled) := Prod.fst_eq_iff.mp (by decide +kernel)
  have hresolve : Engine.update "player" (.tileOffer none) settled = (.ok (), declined) :=
    Prod.fst_eq_iff.mp (by decide +kernel)
  have hlast : Engine.advanceQueue "player" declined =
      (.ok none, (Engine.advanceQueue "player" declined).2) := Prod.fst_eq_iff.mp (by decide +kernel)
  have hcity : (granted.line "player").offer = some city := by decide +kernel
  have hplaced : TileRun "player" colony _ settled :=
    .place (.request (.advance .start hboard hadvance) hrequest) hcity hplace hboard'
  rw [hgreenery] at hplaced
  have run : TileRun "player" colony (moves greenery board board' board'') _ :=
    .advance (.resolve hplaced hgreenery hresolve) hboard'' hlast
  have hline : (Engine.advanceQueue "player" declined).2.line "player" = {} := by decide +kernel
  have hreliable : colony.store.Reliable := fun _ _ ho => absurd ho List.not_mem_nil
  have hstranger : Engine.advanceQueue "stranger" colony =
      (.error (.refused (.playerNotFound "game" "stranger") true),
        (Engine.advanceQueue "stranger" colony).2) := Prod.fst_eq_iff.mp (by decide +kernel)
  obtain ⟨hsplits, -⟩ := queue_splits run
  obtain ⟨-, hreturns, -, hnext⟩ := queue_splits (.start : TileRun "player" colony [] colony)
  obtain ⟨-, -, hrefused, -⟩ := queue_splits (.start : TileRun "stranger" colony [] colony)
  obtain ⟨offer, v, hfirst⟩ := hreturns hreliable (by decide) (by decide)
  exact ⟨greenery, board, board', board'', _, htile, run, hline ▸ hsplits,
    ⟨offer, v, hfirst, (hnext offer v hfirst rfl).2.2 (by decide)⟩,
    hrefused _ _ hstranger (hreliable.not_mayFail _)⟩

end TileRun

end MarsRules
