import MarsRules.Proofs.Chronicle
import MarsRules.Proofs.Endings
import MarsRules.Proofs.Readiness

/-! Placing a tile: what a placement that succeeds has written, that one which is refused leaves
nothing behind, and when it can be refused at all. -/

namespace MarsRules

open Steps (Keeps Sound SoundAt StopsOnly)

theorem Board.occupy_eq_ok {b board : Board} {c : Coord} {tile : TileKind} {owner : Option PlayerId}
    {bonus : ResourceSet} : b.occupy c tile owner = .ok (bonus, board) ↔
    ∃ hex, b.hex? c = some hex ∧ hex.occupant = none ∧
      (hex.terrain == .oceanReserved) = (tile == .ocean) ∧ bonus = hex.bonus ∧
      board = b.modify c ({ · with occupant := some { tile, owner } }) := by
  unfold occupy
  cases hhex : b.hex? c with
  | none => simp
  | some hex =>
    obtain ⟨coord, terrain, occupant, printed⟩ := hex
    cases occupant with
    | some o => simp
    | none =>
      have hbool : ((terrain == .oceanReserved) == (tile == .ocean)) = true ↔
          (terrain == .oceanReserved) = (tile == .ocean) := beq_iff_eq
      simp only [hbool, Option.some.injEq, exists_eq_left', true_and]
      split
      · next hkind => simp [hkind, eq_comm (a := bonus), eq_comm (a := board)]
      · next hkind => simp [hkind]

/-- The world after a player has put the offered tile on a hex, the events not announced yet: the
board has the tile, and the offer has made way for the next on that board. -/
structure Placed (w : World) (game : Game) (player : Player) (offer : TileOffer) (c : Coord)
    (board : Board) (v : World) : Prop where
  offered : player.tileOffer = some offer
  listed : c ∈ offer.hexes
  occupied : ∃ bonus, game.board.occupy c offer.tile (offer.tile.ownerOf player.id) = .ok (bonus, board)
  game : v.game = w.game
  records : ∃ changes resources rating, v.records =
    ((w.records.moveOn w.game changes).changeGame w.game ({ · with board })).changePlayer w.game
      player.id fun _ => { player with tileOffer := none, resources, rating }.advance board

theorem Placed.player? {w v : World} {game : Game} {player : Player} {offer : TileOffer} {c : Coord}
    {board : Board} (h : Placed w game player offer c board v) (hp : w.player? player.id = some player) :
    ∃ resources rating, v.player? player.id =
      some ({ player with tileOffer := none, resources, rating }.advance board) := by
  obtain ⟨changes, resources, rating, hrecords⟩ := h.records
  refine ⟨resources, rating, ?_⟩
  show v.records.player? v.game _ = _
  rw [hrecords, h.game, Records.player?_changePlayer (by simp), Records.moveOn,
    Records.changeGame_changeGame, Records.player?_changeGame]
  exact congrArg (Option.map _) hp

namespace Engine

variable {rules : Rules} {p : PlayerId} {w v : World} {game : Game} {player : Player}
  {offer : TileOffer} {c : Coord} {bonus : ResourceSet} {events : List Event}

theorem writeTile_placed {x : Position} {s t : World × List Change}
    (h : writeTile p offer c s = (.ok (), t)) (hx : w.Reached x s.1) (hp : p = x.player.id)
    (hg : w.records.game? w.game = some game) :
    ∃ bonus board, game.board.occupy c offer.tile (offer.tile.ownerOf p) = .ok (bonus, board) ∧
      t.1.session = x.session ∧ t.1.store.decks = x.decks ∧
      t.1.records = ((w.records.moveOn w.game x.changes).changeGame w.game
        ({ · with board })).changePlayer w.game p fun _ => x.player.advance board := by
  have hb : w.PlaysOn game.board := .of_game? hg
  obtain ⟨g, s₁, h₁, h⟩ := Steps.bind_eq_ok.mp h
  obtain ⟨u, hu, rfl⟩ := Noted.ofEngine_eq_ok.mp (show Noted.ofEngine _ (s.1, s.2) = _ from h₁)
  obtain ⟨hgame, ha⟩ := readGame_ok hu
  obtain ⟨placed, s₂, h₂, h⟩ := Steps.bind_eq_ok.mp h
  obtain ⟨u', hu', rfl⟩ := Noted.ofEngine_eq_ok.mp h₂
  obtain ⟨hoccupy, rfl⟩ := ofExcept_eq_ok.mp hu'
  obtain ⟨_, s₃, h₃, h⟩ := Steps.bind_eq_ok.mp h
  obtain ⟨y, hy, rfl⟩ := Noted.ofEngine_eq_ok.mp h₃
  obtain ⟨_, s₄, h₄, h⟩ := Steps.bind_eq_ok.mp h
  cases h₄
  obtain ⟨gained, s₅, h₅, h⟩ := Steps.bind_eq_ok.mp h
  obtain ⟨z, hz, rfl⟩ := Noted.ofEngine_eq_ok.mp h₅
  obtain ⟨-, rfl⟩ := Steps.pure_eq_ok.mp h
  obtain ⟨store, hplace, rfl⟩ := onStore_eq_ok.mp hz
  obtain ⟨game', board', hgame', hoccupy', hrecords, hdecks⟩ := Store.placeTile_ok hplace
  -- offering the next tile leaves the board as it was read
  have hoffered := offerNext_reached hy (hx.alike ha) hp
  rw [hx.playsOn hb g hgame] at hoccupy
  rw [hoffered.playsOn hb game' hgame', hoccupy] at hoccupy'
  cases hoccupy'
  refine ⟨_, board', hoccupy, hoffered.session, hdecks.trans hoffered.decks, ?_⟩
  have hid : (x.player.advance board').id = p := by rw [Player.advance_id, hp]
  show store.records = _
  rw [hrecords, show y.session.game = w.game from hoffered.game_eq,
    show y.store.records = _ from hoffered.records, Records.changeGame_changePlayer, hid]

theorem commitPlacement_becomes (h : commitPlacement rules p c w = (.ok (bonus, events), v)) :
    ∃ game player offer board, w.records.game? w.game = some game ∧ w.player? p = some player ∧
      player.tileOffer = some offer ∧ c ∈ offer.hexes ∧
      game.board.occupy c offer.tile (offer.tile.ownerOf p) = .ok (bonus, board) ∧
      let changes := ParameterChange.ofSteps rules w.parameters (offer.tile.raises?.toList.map (·, 1))
      w.Becomes (((w.records.moveOn w.game changes).changeGame w.game ({ · with board })).changePlayer
        w.game p fun _ => { player with
          tileOffer := none
          resources := player.resources + bonus
          rating := addInt32 player.rating (ParameterChange.rating rules changes) }.advance board) v := by
  obtain ⟨player, offer, game, x, changes, noted, gained, hp, hoffered, hlisted, hg, hbonus, ha, hwrite,
    -, -⟩ := commitPlacement_ok h
  obtain rfl := World.player?_id hp
  have hgx : x.game = w.game := congrArg Session.game ha.session
  have hrx : x.records = w.records := ha.store.records
  rw [writePlacement_eq] at hwrite
  obtain ⟨_, s, hreward, hwrite⟩ := Steps.bind_eq_ok.mp hwrite
  obtain ⟨_, t, htile, hwrite⟩ := Steps.bind_eq_ok.mp hwrite
  obtain ⟨rfl, rfl⟩ := Steps.pure_eq_ok.mp hwrite
  obtain ⟨-, rfl, hreached⟩ := writeReward_reached hreward ((ha.player? _).trans hp)
  obtain ⟨bonus', board, hoccupied, hsession, hdecks, hrecords⟩ := writeTile_placed htile hreached rfl
    (show x.records.game? x.game = some game by rw [hrx, hgx]; exact hg)
  obtain ⟨hex, hhex, -, -, rfl, -⟩ := Board.occupy_eq_ok.mp hoccupied
  obtain rfl : hex.bonus = bonus := by
    rw [hbonus, hhex]
    rfl
  refine ⟨game, player, offer, board, hg, hp, hoffered, hlisted, hoccupied, ?_⟩
  refine ⟨hsession.trans ha.session, hdecks.trans ha.store.decks, ?_⟩
  rw [hrecords, hrx, hgx, ha.parameters]

theorem commitPlacement_placed (h : commitPlacement rules p c w = (.ok (bonus, events), v)) :
    ∃ game player offer board, w.records.game? w.game = some game ∧ w.player? p = some player ∧
      Placed w game player offer c board v := by
  obtain ⟨game, player, offer, board, hg, hp, hoffered, hlisted, hoccupied, hv⟩ :=
    commitPlacement_becomes h
  obtain rfl := World.player?_id hp
  exact ⟨game, player, offer, board, hg, hp, ⟨hoffered, hlisted, ⟨_, hoccupied⟩, hv.game, _, _, _, hv.records⟩⟩

end Engine

/-- The session is the same. -/
def World.SameSession (w v : World) : Prop := v.session = w.session

instance : Std.Refl World.SameSession := ⟨fun _ => rfl⟩

instance : Trans World.SameSession World.SameSession World.SameSession := ⟨fun h h' => h'.trans h⟩

/-- The same of the worlds that a transaction works on. -/
abbrev Noted.SameSession (s t : World × List Change) : Prop := s.1.SameSession t.1

instance : Std.Refl Noted.SameSession := ⟨fun _ => rfl⟩

instance : Trans Noted.SameSession Noted.SameSession Noted.SameSession := ⟨fun h h' => Eq.trans h' h⟩

section SameSession

variable {α : Type}

namespace Engine

theorem onStore_sameSession (x : StoreSteps α) : Keeps World.SameSession (onStore x) := by
  intro w
  unfold onStore
  rcases x w.store with ⟨_ | _, _⟩ <;> rfl

theorem gameId_sameSession : Keeps World.SameSession gameId := fun _ => rfl

theorem readGame_sameSession : Keeps World.SameSession readGame := fun w => (readGame_alike w).session

theorem update_sameSession (p : PlayerId) (f : PlayerField) : Keeps World.SameSession (update p f) :=
  gameId_sameSession.bind fun _ => onStore_sameSession _

theorem updateGame_sameSession (f : GameField) : Keeps World.SameSession (updateGame f) :=
  gameId_sameSession.bind fun _ => onStore_sameSession _

theorem offerNext_sameSession (p : PlayerId) (board : Board) :
    Keeps World.SameSession (offerNext p board) :=
  (StepLaw.keeps World.SameSession World.Alike.session).offerNext (fun _ => update_sameSession p _)
    (fun _ => update_sameSession p _) board

end Engine

namespace Noted

theorem ofEngine_sameSession {x : Engine α} (hx : Keeps World.SameSession x) :
    Keeps SameSession (ofEngine x) := fun (w, _) => hx w

theorem overwrite_sameSession (player : Player) (f : PlayerField) :
    Keeps SameSession (overwrite player f) :=
  Keeps.bind (fun _ => rfl) fun _ => ofEngine_sameSession (Engine.update_sameSession _ _)

theorem applySteps_sameSession (rules : Rules) (p : PlayerId) (steps : List (GlobalParameter × Int)) :
    Keeps SameSession (applySteps rules p steps) :=
  applySteps_keeps rules p steps (fun hx => ofEngine_sameSession fun w => (hx w).session)
    (fun _ _ _ => rfl) (fun _ _ => ofEngine_sameSession (Engine.updateGame_sameSession _))
    fun _ _ => overwrite_sameSession _ _

end Noted

end SameSession

namespace Engine

section Refused

variable {book : Rulebook} {rules : Rules} {p : PlayerId} {c : Coord} {w v : World} {e : Refusal}

theorem writePlacement_sameSession (rules : Rules) (player : Player) (offer : TileOffer) (c : Coord)
    (bonus : ResourceSet) :
    Keeps Noted.SameSession (writePlacement rules player offer c bonus) := by
  refine Keeps.bind (fun _ => rfl) fun _ => ?_
  refine (Noted.ofEngine_sameSession (update_sameSession _ _)).bind fun _ => ?_
  refine ((Noted.overwrite_sameSession _ _).when _).bind fun _ => ?_
  refine (Noted.applySteps_sameSession _ _ _).bind fun changes => ?_
  refine (Noted.ofEngine_sameSession readGame_sameSession).bind fun game => ?_
  refine Keeps.bind (Noted.ofEngine_sameSession fun w => (ofExcept_alike _ w).session) fun placed => ?_
  refine (Noted.ofEngine_sameSession (offerNext_sameSession _ _)).bind fun _ => ?_
  refine Keeps.bind (fun _ => rfl) fun g => ?_
  exact (Noted.ofEngine_sameSession (onStore_sameSession _)).bind fun _ => Keeps.pure _

theorem commitPlacement_session {b : Bool}
    (h : commitPlacement rules p c w = (.error (.refused e b), v)) : v.session = w.session := by
  rcases Steps.bind_eq_error.mp h with h | ⟨player, u, hplayer, h⟩
  · exact ((readPlayer_alike p).apply h).session
  have hu := ((readPlayer_alike p).apply hplayer).session
  rcases Steps.bind_eq_error.mp h with h | ⟨offer, x, hpick, h⟩
  · exact ((ofExcept_alike _).apply h).session.trans hu
  have hx := ((ofExcept_alike _).apply hpick).session.trans hu
  rcases Steps.bind_eq_error.mp h with h | ⟨game, y, hgame, h⟩
  · exact (readGame_alike.apply h).session.trans hx
  have hy := (readGame_alike.apply hgame).session.trans hx
  rcases Steps.bind_eq_error.mp h with h | ⟨changes, z, -, h⟩
  · obtain ⟨b', z, noted, hsteps, hz⟩ := transact_keepAll_session h
    have hwritten := (writePlacement_sameSession _ _ _ _ _).apply hsteps
    exact hz.trans (Eq.trans hwritten hy)
  · exact absurd rfl (gameId_neverRefuses.bind (fun _ => StopsOnly.pure _) z _ v h e b)

theorem place_error {b : Bool} (h : place book p c w = (.error (.refused e b), v)) :
    commitPlacement book.rules p c w = (.error (.refused e b), v) := by
  rcases Steps.bind_eq_error.mp h with h | ⟨_, u, -, h⟩
  · exact h
  · exact absurd rfl
      ((announce_neverRefuses book _).bind (fun _ => StopsOnly.pure _) u _ v h e b)

/-- A placement that is refused leaves all games, boards included, and all players as they were,
whichever call stopped it, unless a write fails while rewinding; and nothing has been published. -/
theorem place_refused (h : place book p c w = (.error (.refused e true), v)) :
    v.store.games = w.store.games ∧ v.store.rosters = w.store.rosters ∧ v.session = w.session ∧
      (SessionCall.act p (.place c)).deeds book w = [] := by
  have hcommit := place_error h
  obtain ⟨hgames, hrosters⟩ := (commitPlacement_reverts book.rules p c w e v hcommit).tables
  refine ⟨hgames, hrosters, commitPlacement_session hcommit, ?_⟩
  have hchronicled : (SessionCall.act p (.place c)).commit book w = (.error (.refused e true), v) :=
    Steps.bind_apply_error hcommit
  have hnone : (SessionCall.act p (.place c)).chronicle book (w, []) = (.error (.refused e true), v, []) :=
    Steps.bind_apply_error (Chronicled.committing_error hchronicled [])
  exact congrArg (fun r => r.2.2) hnone

/-- A player who may put an ocean on a hex with a bonus, and has a tile waiting behind it. -/
def coast : World where
  store := {
    games := [("game", { id := "game", board := ⟨[
      { coord := .axial 0 0, terrain := .oceanReserved, occupant := none, bonus := { plants := 1 } },
      { coord := .axial 1 0, terrain := .land, occupant := none }]⟩ })]
    rosters := [("game", [{ Player.named "player" with
      tileOffer := some { tile := .ocean, hexes := [.axial 0 0], source := "reef" }
      queue := some { source := "reef", tiles := [.greenery] } }])]
    outages := fun c => if c = .write .placeTile then [{ times := 1 }] else [] }
  session := (Session.new "game" true).watch

/-- The board, which is written last, is unavailable. -/
theorem place_refused_coast :
    let book : Rulebook := { catalog := {}, rules := {}, depth := 8 }
    let after := place book "player" (.axial 0 0) coast
    after.1 = .error (.refused Store.unavailable true) ∧ after.2.session.heard = [] ∧
      after.2.store.games = coast.store.games ∧ after.2.store.rosters = coast.store.rosters ∧
      (SessionCall.act "player" (.place (.axial 0 0))).deeds book coast = [] := by
  intro book after
  have h : after.1 = .error (.refused Store.unavailable true) := by decide +kernel
  have hafter : place book "player" (.axial 0 0) coast =
      (.error (.refused Store.unavailable true), after.2) := Prod.fst_eq_iff.mp h
  obtain ⟨hgames, hrosters, hsession, hdeeds⟩ := place_refused hafter
  exact ⟨h, by rw [hsession]; rfl, hgames, hrosters, hdeeds⟩

end Refused

end Engine

section Sound

variable {b d : Prop} {p : PlayerId} {game : Game} {c : Coord} {placed : ResourceSet × Board}

theorem Store.placeTile_sound {g : GameId} {s : Store} {tile : TileKind} {owner : Option PlayerId}
    (hg : s.records.game? g = some game) (ho : game.board.occupy c tile owner = .ok placed)
    (hs : s.Ready b d g p) :
    SoundAt (Ready b d g p) (Unserved b) (placeTile g c tile owner) s := by
  refine SoundAt.bind (perform_sound _ s hs) fun _ t ht hready => ?_
  have hg : t.records.game? g = some game := ((perform_alike _).apply ht).records ▸ hg
  refine SoundAt.bind (theGame_sound t hready) fun game' u hu hready => ?_
  obtain ⟨hgame, rfl⟩ := theGame_eq_ok.mp hu
  obtain rfl := Option.some.inj (hg.symm.trans hgame)
  rw [ho]
  exact SoundAt.bind (Sound.pure placed t hready) fun placed' u hu hready =>
    (changeGame_sound _).bind (fun _ => Sound.pure _) u hready

namespace Engine

variable {rules : Rules} {book : Rulebook} {w v : World} {player : Player} {offer : TileOffer}
  {bonus : ResourceSet}

theorem writeReward_sound (hr : rules.Ordered) (hid : player.id = p) :
    Sound (Noted.Ready b d p) (Stop.Unserved b) (writeReward rules player offer bonus) := by
  subst hid
  refine (Noted.note_sound _).bind fun _ => (Noted.ofEngine_sound (update_sound _)).bind fun _ => ?_
  exact ((Noted.overwrite_sound rfl _).when _).bind fun _ => Noted.applySteps_sound hr _

/-- Where the board has room for the tile, it is put there unless a call is unavailable. -/
theorem writeTile_sound {s : World × List Change} (hb : s.1.PlaysOn game.board)
    (ho : game.board.occupy c offer.tile (offer.tile.ownerOf p) = .ok placed)
    (hs : Noted.Ready b d p s) :
    SoundAt (Noted.Ready b d p) (Stop.Unserved b) (writeTile p offer c) s := by
  refine SoundAt.bind (Noted.ofEngine_sound readGame_sound s hs) fun g t ht hready => ?_
  obtain ⟨u, hu, rfl⟩ := Noted.ofEngine_eq_ok.mp (show Noted.ofEngine _ (s.1, s.2) = _ from ht)
  obtain ⟨hg, ha⟩ := readGame_ok hu
  have hu : u.PlaysOn game.board := hb.of_alike ha
  rw [hb g hg, ho]
  refine SoundAt.bind (Noted.ofEngine_sound (Sound.pure placed) _ hready) fun placed' t ht hready => ?_
  obtain ⟨-, rfl⟩ := Steps.pure_eq_ok.mp (show (pure placed : Noted _) _ = _ from ht)
  refine SoundAt.bind (Noted.ofEngine_sound (offerNext_sound _) _ hready) fun _ t ht hready => ?_
  obtain ⟨x, hx, rfl⟩ := Noted.ofEngine_eq_ok.mp ht
  obtain ⟨y, hy⟩ := (hs : Store.Ready b d _ p _).player
  have hx : x.PlaysOn game.board := by
    have hy : u.player? p = some y := by rw [ha.player?]; exact hy
    have hid := World.player?_id hy
    exact (offerNext_reached hx (World.Reached.start (hid ▸ hy)) hid.symm).playsOn hu
  obtain ⟨game', hgame⟩ := (hready : Store.Ready b d _ p _).game
  rw [← hx game' hgame] at ho
  refine SoundAt.bind (Noted.ofEngine_sound gameId_sound _ hready) fun _ t ht hready => ?_
  cases ht
  have hplace := onStore_soundAt (Store.placeTile_sound hgame ho hready)
  exact SoundAt.bind (Noted.ofEngine_soundAt hplace) fun _ t _ ht => Sound.pure _ t ht

/-- A placement that answers the offer, where the board has room, is written unless a call is
unavailable. -/
theorem commitPlacement_sound (hr : rules.Ordered) (hg : w.records.game? w.game = some game)
    (hp : w.player? p = some player) (hoffer : player.tileOffer = some offer) (hc : c ∈ offer.hexes)
    (ho : game.board.occupy c offer.tile (offer.tile.ownerOf p) = .ok placed) (hw : w.Ready b d p) :
    SoundAt (World.Ready b d p) (Stop.Unserved b) (commitPlacement rules p c) w := by
  obtain rfl := World.player?_id hp
  refine SoundAt.bind (readPlayer_sound w hw) fun player' u hu hready => ?_
  obtain ⟨hp', ha⟩ := readPlayer_ok hu
  obtain rfl := Option.some.inj (hp.symm.trans hp')
  have hpick : TileOffer.pick player.tileOffer c = .ok offer := by
    rw [hoffer]
    exact if_pos (by simpa using hc)
  rw [hpick]
  refine SoundAt.bind (Sound.pure offer u hready) fun offer' u' hu' hready => ?_
  obtain ⟨rfl, rfl⟩ := Steps.pure_eq_ok.mp hu'
  refine SoundAt.bind (readGame_sound u hready) fun game' v hv hready => ?_
  have hv := Trans.trans ha (readGame_ok hv).2
  have hb : v.PlaysOn game.board := (World.PlaysOn.of_game? hg).of_alike hv
  have hp : v.player? player.id = some player := (hv.player? _).trans hp
  refine SoundAt.bind (transact_sound ?_) fun _ x _ hx => (gameId_sound.bind fun _ => Sound.pure _) x hx
  rw [writePlacement_eq]
  refine SoundAt.bind (writeReward_sound hr rfl (v, []) hready) fun changes s hs hready => ?_
  have hs := (writeReward_reached hs hp).2.2.playsOn hb
  exact (writeTile_sound hs ho hready).bind fun _ t _ ht => Sound.pure _ t ht

theorem commitPlacement_stops (hr : rules.Ordered) (p : PlayerId) (c : Coord) :
    StopsOnly Stop.IsRefusal (commitPlacement rules p c) :=
  (Stop.planLaw (fun _ h => h) hr).commitPlacement p fun _ _ _ => onStore_stops _

/-- The placement is made, if only the depth is great enough; or no depth is enough to announce it. -/
def Places (book : Rulebook) (p : PlayerId) (c : Coord) (w : World) : Prop :=
  (∃ depth bonus v, ∀ deeper ≥ depth, place { book with depth := deeper } p c w = (.ok bonus, v)) ∨
    (∃ result v, commitPlacement book.rules p c w = (.ok result, v)) ∧
      ∀ depth, (place { book with depth } p c w).1 = .error .tooDeep

theorem places_of_occupy (hr : book.rules.Ordered) (hg : w.records.game? w.game = some game)
    (hp : w.player? p = some player) (hoffer : player.tileOffer = some offer) (hc : c ∈ offer.hexes)
    (ho : game.board.occupy c offer.tile (offer.tile.ownerOf p) = .ok placed)
    (hw : w.store.Reliable) : Places book p c w := by
  have hready : w.Ready True False p := ⟨⟨game, hg⟩, ⟨player, hp⟩, False.elim, fun _ => hw⟩
  have hs := commitPlacement_sound hr hg hp hoffer hc ho hready
  rcases hcommit : commitPlacement book.rules p c w with ⟨stop | ⟨bonus, events⟩, u⟩
  · have hstop := hs.stop stop u hcommit
    cases stop with
    | refused e restored => exact absurd trivial hstop.1
    | brokenRange | tooDeep => exact hstop.elim
  · have hplace (depth : Nat) : place { book with depth } p c w =
        (announce { book with depth } events >>= fun _ => pure bonus) u := Steps.bind_apply_ok hcommit
    rcases announce_ends_or hr events u with ⟨depth, v, hv⟩ | hdeep
    · refine .inl ⟨depth, bonus, v, fun deeper hdeeper => ?_⟩
      rw [hplace, Steps.bind_apply_ok (hv deeper hdeeper)]
      rfl
    · refine .inr ⟨⟨_, u, hcommit⟩, fun depth => ?_⟩
      rw [hplace, Steps.bind_apply_error (Prod.ext (hdeep depth) rfl)]

theorem place_eq_error {stop : Stop} (h : commitPlacement book.rules p c w = (.error stop, v))
    (depth : Nat) : place { book with depth } p c w = (.error stop, v) := Steps.bind_apply_error h

/-- Where the board has no room for the tile any more, the placement is refused. -/
theorem place_refused_of_occupy (hr : book.rules.Ordered)
    (hg : w.records.game? w.game = some game) (hp : w.player? p = some player)
    (hoffer : player.tileOffer = some offer) {e : Refusal}
    (ho : game.board.occupy c offer.tile (offer.tile.ownerOf p) = .error e) :
    ∃ e restored v, ∀ depth,
      place { book with depth } p c w = (.error (.refused e restored), v) := by
  rcases hcommit : commitPlacement book.rules p c w with ⟨stop | ⟨bonus, events⟩, u⟩
  · have hstop := commitPlacement_stops hr p c w stop u hcommit
    cases stop with
    | refused e restored => exact ⟨e, restored, u, place_eq_error hcommit⟩
    | brokenRange | tooDeep => exact hstop.elim
  · obtain ⟨game', player', offer', board, hg', hp', hplaced⟩ := commitPlacement_placed hcommit
    obtain rfl := Option.some.inj (hg.symm.trans hg')
    obtain rfl := Option.some.inj (hp.symm.trans hp')
    obtain rfl := Option.some.inj (hoffer.symm.trans hplaced.offered)
    obtain ⟨_, hoccupied⟩ := hplaced.occupied
    rw [World.player?_id hp] at hoccupied
    cases ho.symm.trans hoccupied

end Engine

end Sound

end MarsRules
