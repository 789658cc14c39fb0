import Mathlib.Data.List.Nodup
import MarsRules.Proofs.Requests

/-! Tiles that are offered and tiles that wait. No step leaves tiles waiting without an offer in front
of them (`Records.Handling.fronted`), and every step leaves an offer standing for each hex that it
lists, until another player has put a tile there (`Records.Handling.offersStand`). -/

namespace MarsRules

namespace Board

variable {b b' : Board} {c d : Coord} {tile : TileKind} {owner : Option PlayerId} {p : PlayerId}
  {bonus : ResourceSet}

/-- No two hexes have the same coordinates. -/
def Distinct (b : Board) : Prop := (b.hexes.map (·.coord)).Nodup

theorem between_nodup (lo hi : Int) : (between lo hi).Nodup :=
  List.nodup_range.map fun _ _ h => Int.ofNat.inj (Int.add_left_cancel h)

theorem hexagon_distinct (radius : Int) : (hexagon radius).Distinct := by
  unfold Distinct hexagon
  simp only [List.map_flatMap, List.map_map]
  refine List.nodup_flatMap.mpr ⟨fun q _ => (between_nodup _ _).map fun r r' h => ?_, ?_⟩
  · simpa [Coord.axial] using congrArg Coord.r h
  · -- hexes of different columns differ in the first coordinate
    refine (between_nodup _ _).imp fun hne => ?_
    intro c hc hc'
    obtain ⟨r, -, rfl⟩ := List.mem_map.mp hc
    obtain ⟨r', -, h⟩ := List.mem_map.mp hc'
    exact hne (congrArg Coord.q h).symm

/-- There is a hex of the kind that the tile needs. -/
def Suits (b : Board) (c : Coord) (tile : TileKind) : Prop :=
  ∃ hex, b.hex? c = some hex ∧ (hex.terrain == .oceanReserved) = (tile == .ocean)

/-- There is a tile on the hex. -/
def Covered (b : Board) (c : Coord) : Prop := ∃ hex, b.hex? c = some hex ∧ hex.occupant ≠ none

theorem hex?_eq_some (h : b.Distinct) {hex : Hex} :
    b.hex? c = some hex ↔ hex ∈ b.hexes ∧ hex.coord = c := find?_key_eq_some h

theorem hex?_of_mem (h : b.Distinct) {hex : Hex} (hmem : hex ∈ b.hexes) :
    b.hex? hex.coord = some hex := (hex?_eq_some h).mpr ⟨hmem, rfl⟩

theorem of_mem_legalHexes (h : b.Distinct) (hc : c ∈ b.legalHexes tile p) :
    b.Suits c tile ∧ ¬ b.Covered c := by
  obtain ⟨hex, hmem, rfl⟩ := List.mem_map.mp hc
  obtain ⟨hmem, htakes⟩ := List.mem_filter.mp hmem
  have hfound := hex?_of_mem h hmem
  refine ⟨⟨hex, hfound, ?_⟩, ?_⟩
  · cases tile <;> simp_all [Hex.takes, Hex.isEmptyLand] 
  · rintro ⟨hex', hfound', hoccupied⟩
    obtain rfl := Option.some.inj (hfound.symm.trans hfound')
    cases tile <;> simp_all [Hex.takes, Hex.isEmptyLand, Hex.isEmpty]

theorem occupy_of_suits (h : b.Suits c tile) (owner : Option PlayerId) :
    (∃ placed, b.occupy c tile owner = .ok placed) ∨
      b.Covered c ∧ ∃ e, b.occupy c tile owner = .error e := by
  obtain ⟨⟨coord, terrain, occupant, bonus⟩, hhex, hkind⟩ := h
  unfold occupy
  rw [hhex]
  cases occupant with
  | none => exact .inl ⟨_, if_pos (by simpa using hkind)⟩
  | some o => exact .inr ⟨⟨_, hhex, nofun⟩, _, rfl⟩

theorem occupy_ok (h : b.occupy c tile owner = .ok (bonus, b')) :
    b' = b.modify c ({ · with occupant := some { tile, owner } }) := by
  obtain ⟨_, -, -, -, -, hboard⟩ := occupy_eq_ok.mp h
  exact hboard

section Modify

variable {f : Hex → Hex} (hf : ∀ hex, (f hex).coord = hex.coord)
include hf

theorem modify_distinct (h : b.Distinct) : (b.modify c f).Distinct := by
  unfold Distinct modify
  rwa [map_changeFirst fun hex _ => hf hex]

theorem hex?_modify (d : Coord) :
    (b.modify c f).hex? d = if d = c then (b.hex? c).map f else b.hex? d := by
  split
  · next h =>
    subst h
    exact find?_changeFirst (fun hex h => by simpa [hf] using h) b.hexes
  · next h =>
    rcases find?_changeFirst_of_same (p := (·.coord == c)) (q := (·.coord == d)) (f := f)
      (fun hex _ => by simp [hf]) b.hexes with hsame | ⟨hex, hc, hd, -⟩
    · exact hsame
    · have hd : hex.coord = d := by simpa using List.find?_some hd
      exact absurd (hd.symm.trans (by simpa using hc)) h

end Modify

section Occupied

variable (h : b.occupy c tile owner = .ok (bonus, b'))
include h

theorem occupied_distinct (hb : b.Distinct) : b'.Distinct := by
  rw [occupy_ok h]
  exact modify_distinct (fun _ => rfl) hb

theorem occupied_hex? (d : Coord) : b'.hex? d =
    if d = c then (b.hex? c).map ({ · with occupant := some { tile, owner } }) else b.hex? d := by
  rw [occupy_ok h]
  exact hex?_modify (by simp) d

theorem occupied_suits {other : TileKind} (hd : b.Suits d other) : b'.Suits d other := by
  obtain ⟨hex, hhex, hkind⟩ := hd
  unfold Suits
  rw [occupied_hex? h]
  split
  · next hdc =>
    exact ⟨{ hex with occupant := some { tile, owner } }, by rw [← hdc, hhex, Option.map_some], hkind⟩
  · exact ⟨hex, hhex, hkind⟩

theorem occupied_covered (hd : b'.Covered d) : d = c ∨ b.Covered d := by
  obtain ⟨hex, hhex, ho⟩ := hd
  rw [occupied_hex? h] at hhex
  split at hhex
  · next hdc => exact .inl hdc
  · exact .inr ⟨hex, hhex, ho⟩

end Occupied

end Board

/-- Whoever has tiles waiting has an offer in front of them. -/
def Player.Fronted (x : Player) : Prop := ∀ q, x.queue = some q → q.tiles ≠ [] ∧ x.tileOffer.isSome

namespace Player

variable {board : Board} {x y : Player} {request : Request}

theorem withQueue_fronted {q : TileQueue} (h : q.tiles ≠ []) : (x.withQueue board q).Fronted := by
  unfold withQueue
  split
  · next hoffer =>
    intro q' hq'
    cases hq'
    exact ⟨h, hoffer⟩
  · split
    · nofun
    · next tile rest _ =>
      intro q' hq'
      split at hq'
      · cases hq'
      · next hrest =>
        cases hq'
        exact ⟨hrest, rfl⟩

theorem advance_fronted (h : ∀ q, x.queue = some q → q.tiles ≠ []) : (x.advance board).Fronted := by
  unfold advance
  cases hq : x.queue with
  | none => exact fun q hq' => by simp [hq] at hq'
  | some q => exact withQueue_fronted (h q hq)

theorem withTiles_fronted {source : String} {tiles : List TileKind} (h : x.Fronted) :
    (x.withTiles board source tiles).Fronted := by
  unfold withTiles
  split
  · exact h
  · next htiles => exact withQueue_fronted (by simp [htiles])

theorem Handling.fronted (h : x.Handling board request y) (hx : x.Fronted) : y.Fronted := by
  cases h with
  | aside id actions queue tileOffer => rwa [Fronted, queue, tileOffer]
  | act | renew => exact hx
  | offer => exact fun q hq => ⟨(hx q hq).1, rfl⟩
  | queue source tiles => exact withTiles_fronted hx

end Player

namespace Records

variable {r r' : Records} {g : GameId} {request : Request} {x y : Player}

theorem forall_changePlayer {P : PlayerId → Player → Prop} {p : PlayerId} {z : Player}
    (hz : (r.changePlayer g x.id fun _ => y).player? g p = some z) (there : r.player? g x.id = some x)
    (hid : y.id = x.id) (hy : P x.id y) (h : ∀ p z, r.player? g p = some z → p ≠ x.id → P p z) :
    P p z := by
  rw [player?_changePlayer_there there hid] at hz
  split at hz
  · next hp =>
    cases hz
    exact hp ▸ hy
  · next hp => exact h p z hz hp

theorem Handling.fronted (h : r.Handling g request r')
    (hr : ∀ p x, r.player? g p = some x → x.Fronted) (p : PlayerId) (x : Player)
    (hx : r'.player? g p = some x) : x.Fronted := by
  cases h with
  | player played there step =>
    exact forall_changePlayer (P := fun _ x => x.Fronted) hx there step.id_eq
      (step.fronted (hr _ _ there)) fun p z hz _ => hr p z hz
  | game board => exact hr p x ((player?_changeGame _).symm.trans hx)
  | place asked there =>
    refine forall_changePlayer (P := fun _ x => x.Fronted) hx ((player?_changeGame _).trans there)
      (Player.advance_id _ _) ?_ fun p z hz _ => hr p z ((player?_changeGame _).symm.trans hz)
    exact Player.advance_fronted fun q hq => (hr _ _ there q hq).1

end Records

namespace Log

variable {book : Rulebook} {w₀ w : World} {made : List Made} {p : PlayerId} {x : Player}

/-- In a session that is opened when no tiles wait, whoever comes to have a queue has tiles in it and
an offer in front of them, whatever is asked and whether or not it is refused. -/
theorem queue_fronted (h : Log book w₀ made w)
    (hnone : ∀ p x, w₀.player? p = some x → x.queue = none) (hp : w.player? p = some x)
    {q : TileQueue} (hq : x.queue = some q) : q.tiles ≠ [] ∧ x.tileOffer.isSome := by
  obtain ⟨hgame, hall⟩ := h.keeps (I := fun r => ∀ p x, r.player? w₀.game p = some x → x.Fronted)
    (fun _ _ _ _ hstep hr => hstep.fronted hr)
    fun p x hx q hq => by rw [hnone p x hx] at hq; cases hq
  exact hall p x (hgame ▸ hp) q hq

def colony : Card where
  id := "colony"
  name := "Colony"
  type := .automated
  behaviors := [.immediate [{ kind := .tilePlacement .city, amount := 2 }]]

def settling : Rulebook where
  catalog := ⟨[colony]⟩
  rules := {}
  depth := 8

def settler (id : PlayerId) : Player := { Player.named id with hand := ["colony"] }

/-- Two players who can play the same card. -/
def settlers (radius : Int) : World where
  store := {
    games := [("game", { id := "game", board := .hexagon radius })]
    rosters := [("game", [settler "first", settler "second"])] }
  session := { game := "game" }

theorem settlers_idle {radius : Int} {p : PlayerId} {x : Player}
    (h : (settlers radius).player? p = some x) : x.queue = none ∧ x.tileOffer = none := by
  have h : [settler "first", settler "second"].find? (·.id == p) = some x := h
  have hmem := List.mem_of_find?_eq_some h
  rcases List.mem_pair.mp hmem with rfl | rfl <;> exact ⟨rfl, rfl⟩

def settle (p : PlayerId) : Request := .call (.act p (.play { card := "colony" }))

def firstSettles (radius : Int) : Made :=
  .of settling (settle "first") ((settlers radius).withOutages fun _ => [])

def secondSettles (radius : Int) : Made :=
  .of settling (settle "second") ((firstSettles radius).after.withOutages fun _ => [])

/-- The first player builds in the middle, while the second may still choose. -/
def firstBuilds (radius : Int) : Made :=
  .of settling (.call (.act "first" (.place (.axial 0 0))))
    ((secondSettles radius).after.withOutages fun _ => [])

theorem settlers_log (radius : Int) (hfirst : (firstSettles radius).result = .ok ())
    (hsecond : (secondSettles radius).result = .ok ()) (hbuilds : (firstBuilds radius).result = .ok ()) :
    Log settling (settlers radius) [firstSettles radius, secondSettles radius, firstBuilds radius]
      (firstBuilds radius).after := by
  have hlog : Log settling (settlers radius) [firstSettles radius] (firstSettles radius).after :=
    Log.start.step _ (.of_ok hfirst)
  have hlog : Log settling (settlers radius) [firstSettles radius, secondSettles radius]
      (secondSettles radius).after := hlog.step _ (.of_ok hsecond)
  exact hlog.step _ (.of_ok hbuilds)

/-- Both players have a city on offer and one that waits. -/
theorem queue_fronted_settlers : ∃ made w x q, Log settling (settlers 1) made w ∧
    w.player? "second" = some x ∧ x.queue = some q ∧ q.tiles ≠ [] ∧ x.tileOffer.isSome := by
  have hlog := settlers_log 1 (by decide +kernel) (by decide +kernel) (by decide +kernel)
  have hwaits : ((firstBuilds 1).after.player? "second").bind (·.queue) =
      some { source := "colony", tiles := [.city] } := by decide +kernel
  obtain ⟨x, hx, hq⟩ := Option.bind_eq_some_iff.mp hwaits
  exact ⟨_, _, x, _, hlog, hx, hq, queue_fronted hlog (fun _ _ h => (settlers_idle h).1) hx hq⟩

end Log

/-- An offer lists hexes, all of which suit the tile; those that are covered were taken by others. -/
structure TileOffer.Stands (taken : PlayerId → Coord → Prop) (p : PlayerId) (board : Board)
    (offer : TileOffer) : Prop where
  lists : offer.hexes ≠ []
  suits : ∀ c ∈ offer.hexes, board.Suits c offer.tile
  covered : ∀ c ∈ offer.hexes, board.Covered c → ∃ q, q ≠ p ∧ taken q c

namespace TileOffer.Stands

variable {taken taken' : PlayerId → Coord → Prop} {p : PlayerId} {board board' : Board}
  {offer : TileOffer}

theorem of_legal (hb : board.Distinct) {tile : TileKind} (fits : board.legalHexes tile p ≠ [])
    (source : String) : Stands taken p board { tile, hexes := board.legalHexes tile p, source } where
  lists := fits
  suits _ hc := (Board.of_mem_legalHexes hb hc).1
  covered _ hc hcovered := absurd hcovered (Board.of_mem_legalHexes hb hc).2

theorem mono (h : offer.Stands taken p board) (htaken : ∀ q c, taken q c → taken' q c) :
    offer.Stands taken' p board where
  lists := h.lists
  suits := h.suits
  covered c hc hcovered := (h.covered c hc hcovered).imp fun _ hq => ⟨hq.1, htaken _ _ hq.2⟩

theorem occupied {q : PlayerId} {d : Coord} {tile : TileKind} {owner : Option PlayerId}
    {bonus : ResourceSet} (h : offer.Stands taken p board)
    (hoccupy : board.occupy d tile owner = .ok (bonus, board')) (hq : q ≠ p) (htaken : taken q d) :
    offer.Stands taken p board' where
  lists := h.lists
  suits c hc := Board.occupied_suits hoccupy (h.suits c hc)
  covered c hc hcovered := by
    rcases Board.occupied_covered hoccupy hcovered with rfl | hcovered
    · exact ⟨q, hq, htaken⟩
    · exact h.covered c hc hcovered

end TileOffer.Stands

/-- The player's offer stands, if there is one. -/
def Player.OfferStands (taken : PlayerId → Coord → Prop) (board : Board) (x : Player) : Prop :=
  ∀ offer, x.tileOffer = some offer → offer.Stands taken x.id board

namespace Player

variable {taken : PlayerId → Coord → Prop} {board : Board} {x y : Player} {request : Request}

theorem withQueue_offerStands (hb : board.Distinct) (h : x.OfferStands taken board) (q : TileQueue) :
    (x.withQueue board q).OfferStands taken board := by
  unfold withQueue
  split
  · exact h
  · split
    · exact h
    · next tile rest hfits =>
      intro offer hoffer
      cases hoffer
      have hfirst := List.head_dropWhile_not (fun t => decide (board.legalHexes t x.id = []))
        (l := q.tiles) (by simp [hfits])
      simp only [hfits, List.head_cons, decide_eq_false_iff_not] at hfirst
      exact .of_legal hb hfirst _

theorem advance_offerStands (hb : board.Distinct) (h : x.OfferStands taken board) :
    (x.advance board).OfferStands taken board := by
  unfold advance
  cases x.queue with
  | none => exact h
  | some q => exact withQueue_offerStands hb h q

theorem Handling.offerStands (hb : board.Distinct) (h : x.Handling board request y)
    (hx : x.OfferStands taken board) : y.OfferStands taken board := by
  cases h with
  | aside id actions queue tileOffer =>
    unfold OfferStands
    rwa [id, tileOffer]
  | act | renew => exact hx
  | offer fits source =>
    intro offer hoffer
    cases hoffer
    exact .of_legal hb fits source
  | queue source tiles =>
    unfold withTiles
    split
    · exact hx
    · exact withQueue_offerStands hb hx _

end Player

/-- All offers of the game stand, on a board of distinct hexes. -/
def Records.OffersStand (taken : PlayerId → Coord → Prop) (g : GameId) (r : Records) : Prop :=
  ∃ game, r.game? g = some game ∧ game.board.Distinct ∧
    ∀ p x, r.player? g p = some x → x.OfferStands taken game.board

namespace Records

variable {taken taken' : PlayerId → Coord → Prop} {r r' : Records} {g : GameId} {request : Request}

theorem OffersStand.mono (h : r.OffersStand taken g) (htaken : ∀ q c, taken q c → taken' q c) :
    r.OffersStand taken' g := by
  obtain ⟨game, hgame, hdistinct, hall⟩ := h
  exact ⟨game, hgame, hdistinct, fun p x hx offer hoffer => (hall p x hx offer hoffer).mono htaken⟩

theorem Handling.offersStand (h : r.Handling g request r') (hr : r.OffersStand taken g)
    (htaken : ∀ q c, request = .call (.act q (.place c)) → taken q c) : r'.OffersStand taken g := by
  obtain ⟨game, hgame, hdistinct, hall⟩ := hr
  cases h with
  | @player x y board played there step =>
    obtain rfl := played game hgame
    refine ⟨game, game?_changePlayer.trans hgame, hdistinct, fun p z hz => ?_⟩
    exact forall_changePlayer (P := fun _ x => x.OfferStands taken game.board) hz there step.id_eq
      (step.offerStands hdistinct (hall _ _ there)) fun p z hz _ => hall p z hz
  | @game u board =>
    refine ⟨u game, ?_, ?_, fun p x hx => ?_⟩
    · rw [game?_changeGame, hgame, Option.map_some]
    · rwa [board game]
    · rw [board game]
      exact hall p x ((player?_changeGame u).symm.trans hx)
  | @place x game' offer c bonus board asked there played offered listed occupied =>
    obtain rfl := Option.some.inj (hgame.symm.trans played)
    have hdistinct' := Board.occupied_distinct occupied hdistinct
    refine ⟨{ game with board }, ?_, hdistinct', fun p z hz => ?_⟩
    · rw [game?_changePlayer, game?_changeGame, hgame, Option.map_some]
    · refine forall_changePlayer (P := fun _ x => x.OfferStands taken board) hz
        ((player?_changeGame _).trans there) (Player.advance_id _ _)
        (Player.advance_offerStands hdistinct' nofun) fun p z hz hp => ?_
      intro offer hoffer
      have hz := (player?_changeGame _).symm.trans hz
      have hstands := hall p z hz offer hoffer
      have hid : z.id = p := by simpa using List.find?_some hz
      exact hstands.occupied occupied (hid ▸ hp.symm) (htaken x.id c asked)

end Records

/-- The player has put a tile there in the course of these requests. -/
def Made.Placed (made : List Made) (q : PlayerId) (c : Coord) : Prop :=
  ∃ m ∈ made, m.request = .call (.act q (.place c)) ∧ m.result = .ok ()

theorem Engine.place_restored {book : Rulebook} {p : PlayerId} {c : Coord} {w v : World} {e : Refusal}
    (h : (Operation.place c).run book p w = (.error (.refused e true), v)) : World.Restored w v := by
  rcases Steps.bind_eq_error.mp h with h | ⟨_, u, -, h⟩
  · exact commitPlacement_reverts book.rules p c w e v (place_error h)
  · simp at h

namespace Log

variable {book : Rulebook} {w₀ w : World} {made : List Made} {p : PlayerId} {x : Player}

theorem offersStand (h : Log book w₀ made w) (h₀ : w₀.records.OffersStand (Made.Placed []) w₀.game) :
    w.game = w₀.game ∧ w.records.OffersStand (Made.Placed made) w₀.game := by
  induction h with
  | start => exact ⟨rfl, h₀⟩
  | @next made w h m outages before run finished ih =>
    obtain ⟨hgame, hw⟩ := ih
    have hbefore : m.before.game = w₀.game := by rw [before]; exact hgame
    have hm : m.before.records.OffersStand (Made.Placed (made ++ [m])) w₀.game := by
      rw [before]
      exact hw.mono fun q c ⟨m', hm', hplaced⟩ => ⟨m', List.mem_append_left _ hm', hplaced⟩
    by_cases hrefused : ∃ q c, m.request = .call (.act q (.place c)) ∧ m.result ≠ .ok ()
    · -- a placement that was refused has left everything as it was
      obtain ⟨q, c, hrequest, hresult⟩ := hrefused
      have hrestored : World.Restored m.before m.after := by
        rcases hr : m.result with stop | _
        · obtain ⟨e, rfl⟩ := finished stop hr
          rw [hrequest, hr] at run
          exact Engine.place_restored run
        · exact absurd hr hresult
      exact ⟨hrestored.game.trans hbefore, hrestored.records ▸ hm⟩
    · have hhandled := Request.run_handled run finished
      refine ⟨hhandled.game.trans hbefore, hhandled.keeps (I := (·.OffersStand _ w₀.game)) ?_ hm⟩
      rw [hbefore]
      intro r r' hstep hr
      refine hstep.offersStand hr fun q c hrequest => ⟨m, by simp, hrequest, ?_⟩
      exact not_not.mp fun hresult => hrefused ⟨q, c, hrequest, hresult⟩

/-- In a session that is opened when nothing is on offer, every offer lists hexes, and each of them can
be taken as soon as no call is unavailable, unless another player has put a tile there: then the
placement is refused. -/
theorem offer_stands {game₀ : Game} (h : Log book w₀ made w) (hr : book.rules.Ordered)
    (hgame : w₀.records.game? w₀.game = some game₀) (hboard : game₀.board.Distinct)
    (hnone : ∀ p x, w₀.player? p = some x → x.tileOffer = none) (hp : w.player? p = some x)
    {offer : TileOffer} (hoffer : x.tileOffer = some offer) :
    offer.hexes ≠ [] ∧ ∀ c ∈ offer.hexes,
      Engine.Places book p c (w.withOutages fun _ => []) ∨
      (∃ m ∈ made, ∃ q, q ≠ p ∧ m.request = .call (.act q (.place c)) ∧ m.result = .ok ()) ∧
        ∃ e restored v, ∀ depth, Engine.place { book with depth } p c (w.withOutages fun _ => []) =
          (.error (.refused e restored), v) := by
  have h₀ : w₀.records.OffersStand (Made.Placed []) w₀.game :=
    ⟨game₀, hgame, hboard, fun p x hx offer ho => by rw [hnone p x hx] at ho; cases ho⟩
  obtain ⟨hw, game, hgame, -, hall⟩ := h.offersStand h₀
  obtain rfl := World.player?_id hp
  have hstands := hall x.id x (hw ▸ hp) offer hoffer
  rw [← hw] at hgame
  refine ⟨hstands.lists, fun c hc => ?_⟩
  rcases Board.occupy_of_suits (hstands.suits c hc) (offer.tile.ownerOf x.id) with
    ⟨placed, hplaced⟩ | ⟨hcovered, e, he⟩
  · exact .inl (Engine.places_of_occupy hr hgame hp hoffer hc hplaced nofun)
  · obtain ⟨q, hq, m, hm, hplaced⟩ := hstands.covered c hc hcovered
    exact .inr ⟨⟨m, hm, q, hq, hplaced⟩, Engine.place_refused_of_occupy hr hgame hp hoffer he⟩

/-- On a wider board there is room left for the second player. -/
theorem offer_stands_settlers : ∃ made w x offer, Log settling (settlers 1) made w ∧
    w.player? "second" = some x ∧ x.tileOffer = some offer ∧ offer.hexes.length = 7 ∧
    ∀ c ∈ offer.hexes, c ≠ .axial 0 0 →
      Engine.Places settling "second" c (w.withOutages fun _ => []) := by
  have hlog := settlers_log 1 (by decide +kernel) (by decide +kernel) (by decide +kernel)
  have hopen : (((firstBuilds 1).after.player? "second").bind (·.tileOffer)).map (·.hexes.length) =
      some 7 := by decide +kernel
  obtain ⟨offer, hoffer, hlength⟩ := Option.map_eq_some_iff.mp hopen
  obtain ⟨x, hx, hoffer⟩ := Option.bind_eq_some_iff.mp hoffer
  have hordered : settling.rules.Ordered := fun q => by cases q <;> decide
  have hstands := offer_stands hlog hordered rfl (Board.hexagon_distinct 1)
    (fun _ _ h => (settlers_idle h).2) hx hoffer
  refine ⟨_, _, x, offer, hlog, hx, hoffer, hlength, fun c hc hne => ?_⟩
  refine (hstands.2 c hc).resolve_right fun ⟨⟨m, hm, q, _, hrequest, _⟩, _⟩ => ?_
  -- nobody has built but in the middle
  simp only [List.mem_cons, List.not_mem_nil, or_false] at hm
  rcases hm with rfl | rfl | rfl
  · cases show settle "first" = _ from hrequest
  · cases show settle "second" = _ from hrequest
  · cases show Request.call (.act "first" (.place (.axial 0 0))) = _ from hrequest
    exact hne rfl

/-- Where there is one hex only, the offer of the second player is left without any. -/
theorem offer_covered : ∃ made w x offer, Log settling (settlers 0) made w ∧
    (∀ p x, (settlers 0).player? p = some x → x.queue = none ∧ x.tileOffer = none) ∧
    w.player? "second" = some x ∧ x.tileOffer = some offer ∧ offer.hexes = [.axial 0 0] ∧
    ∀ c ∈ offer.hexes, ∃ e v, ∀ depth, Engine.place { settling with depth } "second" c w =
      (.error (.refused e true), v) := by
  have hlog := settlers_log 0 (by decide +kernel) (by decide +kernel) (by decide +kernel)
  have hopen : ((firstBuilds 0).after.player? "second").bind (·.tileOffer) =
      some { tile := .city, hexes := [.axial 0 0], source := "colony" } := by decide +kernel
  obtain ⟨x, hx, hoffer⟩ := Option.bind_eq_some_iff.mp hopen
  have hrefused : (Engine.commitPlacement settling.rules "second" (.axial 0 0) (firstBuilds 0).after).1 =
      .error (.refused (.invalidSelection "hex (0,0,0) is already occupied by a city tile") true) := by
    decide +kernel
  refine ⟨_, _, x, _, hlog, fun _ _ => settlers_idle, hx, hoffer, rfl, fun c hc => ?_⟩
  obtain rfl := List.mem_singleton.mp hc
  exact ⟨_, _, Engine.place_eq_error (Prod.fst_eq_iff.mp hrefused)⟩

end Log

end MarsRules
