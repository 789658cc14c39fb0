import Mathlib.Data.List.TakeWhile
import MarsRules.Proofs.Dispatch
import MarsRules.Proofs.Offers

/-! Placing a tile where no call fails. A placement is made exactly when it answers the offer and the hex
has room (`Engine.place_settles`), and then the records are known to the last field: the hex, the counter
that the tile raises, the resources and the rating of the player, and the tile that is offered next. The
announcements come after that, and nothing says that they end. -/

namespace MarsRules

/-- What comes to be offered of the tiles that wait, and what stays behind it. -/
inductive TileQueue.Offers (board : Board) (p : PlayerId) :
    Option TileQueue → Option TileOffer → Option TileQueue → Prop
  | idle : Offers board p none none none
  /-- None of them fits. -/
  | dropped {q : TileQueue} (unfit : ∀ tile ∈ q.tiles, board.legalHexes tile p = []) :
      Offers board p (some q) none none
  /-- The first that fits, on every hex that is legal for it; those before it are dropped. -/
  | next {source : String} {before rest : List TileKind} {tile : TileKind}
      (unfit : ∀ t ∈ before, board.legalHexes t p = []) (fits : board.legalHexes tile p ≠ []) :
      Offers board p (some { source, tiles := before ++ tile :: rest })
        (some { tile, hexes := board.legalHexes tile p, source })
        (if rest = [] then none else some { source, tiles := rest })

theorem Player.advance_offers {x : Player} (h : x.tileOffer = none) (board : Board) :
    ∃ offer queue, TileQueue.Offers board x.id x.queue offer queue ∧
      x.advance board = { x with tileOffer := offer, queue } := by
  unfold advance
  cases hq : x.queue with
  | none =>
    refine ⟨none, none, .idle, ?_⟩
    show x = { x with tileOffer := none, queue := none }
    rw [← h, ← hq]
  | some q =>
    show ∃ offer queue, _ ∧ x.withQueue board q = _
    unfold withQueue
    rw [if_neg (by simp [h])]
    obtain ⟨before, hsplit, hunfit⟩ : ∃ before,
        (before ++ q.tiles.dropWhile fun t => decide (board.legalHexes t x.id = [])) = q.tiles ∧
          ∀ t ∈ before, board.legalHexes t x.id = [] :=
      ⟨_, List.takeWhile_append_dropWhile, fun t ht => by simpa using List.mem_takeWhile_imp ht⟩
    cases hfits : q.tiles.dropWhile fun t => decide (board.legalHexes t x.id = []) with
    | nil =>
      refine ⟨none, none, .dropped fun t ht => hunfit t ?_, by rw [← h]⟩
      rw [hfits, List.append_nil] at hsplit
      rwa [hsplit]
    | cons tile rest =>
      have hfirst := List.head_dropWhile_not (fun t => decide (board.legalHexes t x.id = []))
        (l := q.tiles) (by simp [hfits])
      simp only [hfits, List.head_cons, decide_eq_false_iff_not] at hfirst
      have hoffers : TileQueue.Offers board x.id
          (some { source := q.source, tiles := before ++ tile :: rest }) _ _ := .next hunfit hfirst
      rw [← hfits, hsplit] at hoffers
      exact ⟨_, _, hoffers, rfl⟩

namespace TileKind

/-- The parameters once the tile has been put down: the one that it raises has gone one step up, as far as
its range allows. -/
def moved (tile : TileKind) (rules : Rules) (v : Parameters) : Parameters :=
  tile.raises?.elim v fun q => v.set q (rules.moved q (v.get q) 1)

def award (tile : TileKind) (rules : Rules) (v : Parameters) : Int :=
  if rules.ratingPerStep then ParameterChange.gained rules v (tile.moved rules v) else 0

end TileKind

def TileOffer.laid (offer : TileOffer) (p : PlayerId) (c : Coord) (board : Board) : Board :=
  board.modify c ({ · with occupant := some { tile := offer.tile, owner := offer.tile.ownerOf p } })

/-- The player has been offered a tile for this hex, which is still empty and is of the kind that the tile
needs. -/
structure World.Open (w : World) (p : PlayerId) (c : Coord) (game : Game) (player : Player)
    (offer : TileOffer) (hex : Hex) : Prop where
  played : w.records.game? w.game = some game
  seated : w.player? p = some player
  offered : player.tileOffer = some offer
  listed : c ∈ offer.hexes
  there : game.board.hex? c = some hex
  empty : hex.occupant = none
  kind : (hex.terrain == .oceanReserved) = (offer.tile == .ocean)

theorem World.Open.occupy {w : World} {p : PlayerId} {c : Coord} {game : Game} {player : Player}
    {offer : TileOffer} {hex : Hex} (h : w.Open p c game player offer hex) :
    game.board.occupy c offer.tile (offer.tile.ownerOf p) = .ok (hex.bonus, offer.laid p c game.board) :=
  Board.occupy_eq_ok.mpr ⟨hex, h.there, h.empty, h.kind, rfl, rfl⟩

/-- The tile is down, and nothing is announced yet: the board has it, the parameter that it raises is moved,
and the player has the bonus, the rating and the next offer on that board. Nothing else is different. -/
def World.Settled (rules : Rules) (w : World) (c : Coord) (game : Game) (player : Player) (offer : TileOffer)
    (bonus : ResourceSet) (v : World) : Prop :=
  ∃ next queue, TileQueue.Offers (offer.laid player.id c game.board) player.id player.queue next queue ∧
    w.Becomes ((w.records.changeGame w.game fun _ => { game with
      board := offer.laid player.id c game.board
      parameters := offer.tile.moved rules game.parameters }).changePlayer w.game player.id fun _ =>
        { player with
          tileOffer := next
          queue
          resources := player.resources + bonus
          rating := addInt32 player.rating (offer.tile.award rules game.parameters) }) v

namespace ParameterChange

theorem after_raises {rules : Rules} (hr : rules.Ordered) (tile : TileKind) (v : Parameters) :
    v.after (ofSteps rules v (tile.raises?.toList.map (·, 1))) = tile.moved rules v := by
  unfold TileKind.moved
  cases tile.raises? with
  | none => rfl
  | some q =>
    have hstep : ofStep? rules v (q, 1) =
        (some ⟨q, v.get q, rules.moved q (v.get q) 1⟩ : Option ParameterChange).filter (·.isChange) := by
      unfold ofStep?
      rw [of?_eq_moved (hr q)]
      rfl
    show v.after ([(q, (1 : Int))].filterMap (ofStep? rules v)) = v.set q (rules.moved q (v.get q) 1)
    by_cases hsame : v.get q = rules.moved q (v.get q) 1
    · have hnone : ofStep? rules v (q, 1) = none := by simp [hstep, isChange, ← hsame]
      rw [List.filterMap_cons_none hnone, ← hsame]
      ext r
      rw [Parameters.get_set]
      split
      · next hqr => rw [← hqr]; rfl
      · rfl
    · have hsome : ofStep? rules v (q, 1) = some ⟨q, v.get q, rules.moved q (v.get q) 1⟩ := by
        simp [hstep, isChange, hsame]
      rw [List.filterMap_cons_some hsome]
      rfl

theorem rating_raises {rules : Rules} (hr : rules.Ordered) (tile : TileKind) (v : Parameters) :
    rating rules (ofSteps rules v (tile.raises?.toList.map (·, 1))) = tile.award rules v := by
  have hnodup : ((tile.raises?.toList.map (·, (1 : Int))).map (·.1)).Nodup := by
    cases tile.raises? <;> simp
  rw [rating_ofSteps rules v hnodup, after_raises hr]
  rfl

end ParameterChange

namespace Engine

variable {book : Rulebook} {rules : Rules} {p : PlayerId} {c : Coord} {w v : World} {bonus : ResourceSet}
  {events : List Event}

theorem commitPlacement_settles (hr : rules.Ordered)
    (h : commitPlacement rules p c w = (.ok (bonus, events), v)) :
    ∃ game player offer hex, w.Open p c game player offer hex ∧ bonus = hex.bonus ∧
      w.Settled rules c game player offer bonus v := by
  obtain ⟨game, player, offer, board, hg, hp, hoffered, hlisted, hoccupied, hv⟩ :=
    commitPlacement_becomes h
  obtain rfl := World.player?_id hp
  obtain ⟨hex, hhex, hempty, hkind, rfl, rfl⟩ := Board.occupy_eq_ok.mp hoccupied
  refine ⟨game, player, offer, hex, ⟨hg, hp, hoffered, hlisted, hhex, hempty, hkind⟩, rfl, ?_⟩
  have hparameters : w.parameters = game.parameters := by simp [World.parameters, hg]
  simp only [hparameters, ParameterChange.rating_raises hr] at hv
  obtain ⟨next, queue, hoffers, hadvance⟩ := Player.advance_offers (x := { player with
      tileOffer := none
      resources := player.resources + hex.bonus
      rating := addInt32 player.rating (offer.tile.award rules game.parameters) })
    rfl (offer.laid player.id c game.board)
  refine ⟨next, queue, hoffers, hv.session, hv.decks, hv.records.trans ?_⟩
  rw [Records.moveOn, Records.changeGame_changeGame]
  refine (congrArg (Records.changePlayer _ w.game player.id) (funext fun _ => hadvance)).trans ?_
  congr 1
  refine Records.changeGame_congr fun game' hg' => ?_
  obtain rfl := Option.some.inj (hg.symm.trans hg')
  rw [← ParameterChange.after_raises hr]
  rfl

theorem place_ok (h : place book p c w = (.ok bonus, v)) :
    ∃ events u, commitPlacement book.rules p c w = (.ok (bonus, events), u) ∧
      announce book events u = (.ok (), v) := by
  obtain ⟨⟨bonus', events⟩, u, hcommit, h⟩ := Steps.bind_eq_ok.mp h
  obtain ⟨_, x, hannounce, h⟩ := Steps.bind_eq_ok.mp h
  obtain ⟨rfl, rfl⟩ := Steps.pure_eq_ok.mp h
  exact ⟨events, u, hcommit, hannounce⟩

/-- Where no call fails, a placement is made exactly when the player has been offered a tile for the hex,
which is empty and of its kind; else it is refused. What it has written before it is announced is told
field by field. -/
theorem place_settles (hr : book.rules.Ordered) (hw : w.store.Reliable) :
    (Places book p c w ↔ ∃ game player offer hex, w.Open p c game player offer hex) ∧
    ((¬ ∃ game player offer hex, w.Open p c game player offer hex) →
      ∃ e restored v, ∀ depth, place { book with depth } p c w = (.error (.refused e restored), v)) ∧
    ∀ bonus v, place book p c w = (.ok bonus, v) → ∃ game player offer hex events u,
      w.Open p c game player offer hex ∧ bonus = hex.bonus ∧
      commitPlacement book.rules p c w = (.ok (bonus, events), u) ∧
      w.Settled book.rules c game player offer bonus u ∧ announce book events u = (.ok (), v) := by
  have hopen {bonus : ResourceSet} {events : List Event} {u : World}
      (h : commitPlacement book.rules p c w = (.ok (bonus, events), u)) :
      ∃ game player offer hex, w.Open p c game player offer hex := by
    obtain ⟨game, player, offer, hex, hopen, -⟩ := commitPlacement_settles hr h
    exact ⟨game, player, offer, hex, hopen⟩
  refine ⟨⟨?_, ?_⟩, fun hclosed => ?_, fun bonus v h => ?_⟩
  · rintro (⟨depth, bonus, v, h⟩ | ⟨⟨⟨bonus, events⟩, u, hcommit⟩, -⟩)
    · obtain ⟨events, u, hcommit, -⟩ := place_ok (h depth (Nat.le_refl _))
      exact hopen hcommit
    · exact hopen hcommit
  · rintro ⟨game, player, offer, hex, h⟩
    obtain rfl := World.player?_id h.seated
    exact places_of_occupy hr h.played h.seated h.offered h.listed h.occupy hw
  · rcases hcommit : commitPlacement book.rules p c w with ⟨stop | ⟨bonus, events⟩, u⟩
    · have hstop := commitPlacement_stops hr p c w stop u hcommit
      cases stop with
      | refused e restored => exact ⟨e, restored, u, place_eq_error hcommit⟩
      | brokenRange | tooDeep => exact hstop.elim
    · exact absurd (hopen hcommit) hclosed
  · obtain ⟨events, u, hcommit, hannounce⟩ := place_ok h
    obtain ⟨game, player, offer, hex, hopen, hbonus, hsettled⟩ := commitPlacement_settles hr hcommit
    exact ⟨game, player, offer, hex, events, u, hopen, hbonus, hcommit, hsettled, hannounce⟩

/-- Where the ocean lies there is land beside it, which the player has not been offered. -/
theorem place_settles_coast :
    let book : Rulebook := { catalog := {}, rules := {}, depth := 8 }
    let w := coast.withOutages fun _ => []
    (∃ game player offer hex u v, place book "player" (.axial 0 0) w = (.ok { plants := 1 }, v) ∧
      w.Settled book.rules (.axial 0 0) game player offer { plants := 1 } u ∧ hex.bonus = { plants := 1 } ∧
      w.Open "player" (.axial 0 0) game player offer hex) ∧
    ¬ Places book "player" (.axial 1 0) w := by
  intro book w
  have hr : book.rules.Ordered := fun q => by cases q <;> decide
  have hw : w.store.Reliable := fun _ _ ho => absurd ho List.not_mem_nil
  refine ⟨?_, fun hplaces => ?_⟩
  · have h : (place book "player" (.axial 0 0) w).1 = .ok { plants := 1 } := by decide +kernel
    obtain ⟨game, player, offer, hex, _, u, hopen, hbonus, -, hsettled, -⟩ :=
      (place_settles hr hw).2.2 _ _ (Prod.fst_eq_iff.mp h)
    exact ⟨game, player, offer, hex, u, _, Prod.fst_eq_iff.mp h, hsettled, hbonus.symm, hopen⟩
  · obtain ⟨_, player, offer, _, hopen⟩ := (place_settles hr hw).1.mp hplaces
    have hplayer : w.player? "player" = some { Player.named "player" with
      tileOffer := some { tile := .ocean, hexes := [.axial 0 0], source := "reef" }
      queue := some { source := "reef", tiles := [.greenery] } } := rfl
    obtain rfl := Option.some.inj (hplayer.symm.trans hopen.seated)
    obtain rfl := Option.some.inj hopen.offered
    exact absurd hopen.listed (by decide)

def seeds : TileOffer where
  tile := .greenery
  hexes := [.axial 0 0]
  source := "seeds"

def clearing (occupant : Option Occupant) (tileOffer : Option TileOffer) (temperature oxygen : Int) :
    World where
  store := {
    games := [("game", {
      id := "game"
      board := ⟨[{ coord := .axial 0 0, terrain := .land, occupant }]⟩
      parameters := { temperature, oxygen } })]
    rosters := [("game", [{ Player.named "player" with
      tileOffer
      effects := [Seesaw.trade .temperatureRaise .temperature .oxygen,
        Seesaw.trade .oxygenRaise .oxygen .temperature] }])] }
  session := (Seesaw.world temperature oxygen).session

def untilled : World := clearing none (some seeds) (-30) 0

def tilled : (temperature oxygen : Int) → World :=
  clearing (some { tile := .greenery, owner := some "player" }) none

theorem tilled_rocks : Seesaw.Rocking Seesaw.book (tilled (-28) 0) (tilled (-30) 1) where
  warmer := ⟨_, _, rfl, rfl, rfl⟩
  fresher := ⟨_, _, rfl, rfl, rfl⟩
  colder _ := rfl
  stuffier _ := rfl

theorem commitPlacement_untilled : ∃ e,
    commitPlacement Seesaw.book.rules "player" (.axial 0 0) untilled =
      (.ok ({}, [Seesaw.change .oxygen 0 1, e]), tilled (-30) 1) := ⟨_, rfl⟩

theorem untilled_open : ∃ game player hex, game.board.Distinct ∧
    untilled.Open "player" (.axial 0 0) game player seeds hex := by
  refine ⟨_, _, { coord := .axial 0 0, terrain := .land, occupant := none }, ?_,
    rfl, rfl, rfl, List.mem_singleton_self _, rfl, rfl, rfl⟩
  exact List.nodup_singleton _

/-- A placement that answers the offer, where the hex has room, need not come back. -/
theorem place_endless : Seesaw.book.rules.Ordered ∧ untilled.store.Reliable ∧
    (∃ game player offer hex, game.board.Distinct ∧
      untilled.Open "player" (.axial 0 0) game player offer hex) ∧
    ¬ ∃ depth bonus, (place { Seesaw.book with depth } "player" (.axial 0 0) untilled).1 = .ok bonus := by
  obtain ⟨game, player, hex, hdistinct, hopen⟩ := untilled_open
  refine ⟨Seesaw.valid.ordered, fun _ _ ho => absurd ho List.not_mem_nil,
    ⟨game, player, seeds, hex, hdistinct, hopen⟩, fun ⟨depth, bonus, h⟩ => ?_⟩
  obtain ⟨e, hcommit⟩ := commitPlacement_untilled
  have hplace : place { Seesaw.book with depth } "player" (.axial 0 0) untilled =
      (announce { Seesaw.book with depth } [Seesaw.change .oxygen 0 1, e] >>= fun _ => pure {})
        (tilled (-30) 1) := Steps.bind_apply_ok hcommit
  obtain ⟨u, hu⟩ := (tilled_rocks.tooDeep depth).2
  have hdeep : announce { Seesaw.book with depth } [Seesaw.change .oxygen 0 1, e] (tilled (-30) 1) =
      (.error .tooDeep, u) := by
    rw [announce_depth]
    exact Steps.bind_apply_error (Steps.bind_apply_error hu)
  rw [hplace, Steps.bind_apply_error hdeep] at h
  cases h

end Engine

end MarsRules
