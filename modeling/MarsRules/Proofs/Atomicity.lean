import MarsRules.Proofs.Publishing
import MarsRules.Proofs.Rollback
import MarsRules.Session.Place

/-! An operation that is refused leaves the records as they were, at whatever call it is stopped. -/

namespace MarsRules

open Steps (Keeps KeepsFrom StopsOnly)

section Drop

variable {δ : Type} {R : δ → δ → Prop} [Std.Refl R] {g : GameId} {drop : Dropping δ}

/-- Putting back does to the keeper of the subscriptions only what dropping does to it. -/
theorem Change.undo_keeper (hdrop : ∀ card d, R d (drop card d).2) (c : Change) (s : Store) (d : δ) :
    R d (c.undo g drop s d).2.2 := by
  cases c with
  | player | tiles | parameter => exact Std.Refl.refl d
  | subscribed card => exact hdrop card d

theorem UndoLog.undoAll_keeper [Trans R R R] (hdrop : ∀ card d, R d (drop card d).2) (cs : List Change)
    (s : Store) (d : δ) : R d (undoAll g drop cs s d).2.2 := by
  induction cs generalizing s d with
  | nil => exact Std.Refl.refl d
  | cons c rest ih => exact Trans.trans (Change.undo_keeper hdrop c s d) (ih _ _)

end Drop

/-- The game that is played and its records are the same. -/
structure World.Restored (w v : World) : Prop where
  game : v.game = w.game
  records : v.records = w.records

theorem World.Restored.tables {w v : World} (h : Restored w v) :
    v.store.games = w.store.games ∧ v.store.rosters = w.store.rosters := by
  simpa [World.records, Store.records] using h.records

instance : Std.Refl World.Restored := ⟨fun _ => ⟨rfl, rfl⟩⟩

instance : Trans World.Restored World.Restored World.Restored :=
  ⟨fun h h' => ⟨h'.game.trans h.game, h'.records.trans h.records⟩⟩

theorem World.Alike.restored {w v : World} (h : Alike w v) : Restored w v :=
  ⟨congrArg Session.game h.session, h.store.records⟩

namespace Engine

variable {α β : Type} {x : Engine α} {f : α → Engine β}

/-- A refusal here whose rewinding worked leaves the records as they were. -/
def RevertsAt (x : Engine α) (w : World) : Prop :=
  ∀ e v, x w = (.error (.refused e true), v) → World.Restored w v

def Reverts (x : Engine α) : Prop := ∀ w, RevertsAt x w

theorem NeverRefuses.reverts (h : NeverRefuses x) : Reverts x :=
  fun w e v hx => absurd rfl (h w _ v hx e true)

theorem Reverts.of_alike (h : Keeps World.Alike x) : Reverts x := by
  intro w e v hx
  have := (h w).restored
  rwa [hx] at this

theorem RevertsAt.bind_of_alike {w : World} (h : Keeps World.Alike x)
    (hf : ∀ a u, x w = (.ok a, u) → World.Alike w u → RevertsAt (f a) u) : RevertsAt (x >>= f) w := by
  intro e v hx
  rcases Steps.bind_eq_error.mp hx with hx | ⟨a, u, hx, hv⟩
  · exact Reverts.of_alike h w e v hx
  · have hu := h.apply hx
    exact Trans.trans hu.restored (hf a u hx hu e v hv)

theorem Reverts.bind_of_alike (h : Keeps World.Alike x)
    (hf : ∀ w a u, x w = (.ok a, u) → RevertsAt (f a) u) : Reverts (x >>= f) :=
  fun w => RevertsAt.bind_of_alike h fun a u hu _ => hf w a u hu

theorem RevertsAt.bind_neverRefuses {w : World} (h : RevertsAt x w)
    (hf : ∀ a, NeverRefuses (f a)) : RevertsAt (x >>= f) w := by
  intro e v hx
  rcases Steps.bind_eq_error.mp hx with hx | ⟨a, u, -, hv⟩
  · exact h e v hx
  · exact absurd rfl (hf a u _ v hv e true)

end Engine

namespace Noted

variable {α β : Type} {x : Noted α} {f : α → Noted β}

/-- After a refusal here whose inner rewinding worked, what was noted still leads back. -/
def RevertsAt (x : Noted α) (s : World × List Change) : Prop :=
  ∀ e t, x s = (.error (.refused e true), t) → Covered [] s t

def RevertsFrom (P : World × List Change → Prop) (x : Noted α) : Prop := ∀ s, P s → RevertsAt x s

variable {P : World × List Change → Prop}

theorem RevertsFrom.of_covered (h : KeepsFrom P (Covered []) x) : RevertsFrom P x := by
  intro s hs e t hx
  have := h s hs
  rwa [hx] at this

theorem RevertsFrom.bind (hP : ∀ s t, Covered [] s t → P s → P t)
    (h : KeepsFrom P (Covered []) x) (hf : ∀ a, RevertsFrom P (f a)) :
    RevertsFrom P (x >>= f) := by
  intro s hs e t hx
  rcases Steps.bind_eq_error.mp hx with hx | ⟨a, u, hx, ht⟩
  · exact RevertsFrom.of_covered h s hs e t hx
  · have hu := h s hs
    rw [hx] at hu
    exact hu.trans (hf a u (hP s u hu hs) e t ht)

theorem RevertsFrom.ofEngine {x : Engine α} (h : x.Reverts) : RevertsFrom P (ofEngine x) := by
  rintro ⟨w, noted⟩ - e t hx
  rw [ofEngine_apply] at hx
  obtain ⟨hx, rfl⟩ := Prod.ext_iff.mp hx
  obtain ⟨hg, hr⟩ := h w e (x w).2 (Prod.ext hx rfl)
  refine ⟨hg, List.suffix_rfl, fun _ => ?_⟩
  show (x w).2.records.putAll (x w).2.game _ = w.records.putAll w.game _
  rw [hg, hr]

end Noted

/-- A session on the same game. -/
def Session.SameGame (s t : Session) : Prop := t.game = s.game

instance : Std.Refl Session.SameGame := ⟨fun _ => rfl⟩

instance : Trans Session.SameGame Session.SameGame Session.SameGame := ⟨fun h h' => h'.trans h⟩

/-- A refused transaction leaves the records as they were if what its steps note leads back. -/
theorem transact_reverts {α : Type} {drop : Dropping Session} {steps : Noted α}
    (hdrop : ∀ card s, (drop card s).2.game = s.game) {w : World}
    (h : steps.RevertsAt (w, [])) : (transact drop steps).RevertsAt w := by
  intro e v hx
  rcases hs : steps (w, []) with ⟨stop | a, u, noted⟩
  · cases stop with
    | refused e' restored =>
      rcases hundo : UndoLog.undoAll u.session.game drop noted u.store u.session with
        ⟨r, store, session⟩
      simp only [transact, hs, UndoLog.rewind, hundo, Prod.mk.injEq, Except.error.injEq,
        Stop.refused.injEq, Bool.and_eq_true] at hx
      obtain ⟨⟨rfl, rfl, hr⟩, rfl⟩ := hx
      have hok : r = .ok () := by cases r <;> simp_all [Except.isOk, Except.toBool]
      have hc : Covered [] (w, []) (u, noted) := h _ _ hs
      have hk := UndoLog.undoAll_keeper (R := Session.SameGame) (g := u.game) hdrop noted u.store
        u.session
      rw [show UndoLog.undoAll u.game drop noted u.store u.session = _ from hundo] at hk
      refine ⟨hk.trans hc.game, ?_⟩
      show store.records = w.records
      rw [UndoLog.undoAll_ok (hok ▸ hundo)]
      exact hc.base (List.nil_subset _)
    | brokenRange | tooDeep => simp [transact, hs] at hx
  · simp [transact, hs] at hx

theorem keepAll_game (card : CardId) (s : Session) : (keepAll card s).2.game = s.game := rfl

theorem Session.dropCard_game (card : CardId) (s : Session) : (dropCard card s).2.game = s.game :=
  rfl

namespace Engine

theorem commit_reverts (plan : Plan) (rules : Rules) (listening : Bool) :
    Reverts (plan.commit rules listening) := by
  intro w
  refine RevertsAt.bind_neverRefuses (transact_reverts ?_ ?_) fun _ =>
    gameId_neverRefuses.bind fun _ => StopsOnly.pure _
  · cases listening
    · exact keepAll_game
    · exact Session.dropCard_game
  · exact Noted.RevertsFrom.of_covered ((plan.write_covered rules listening).from fun _ => True)
      (w, []) trivial

theorem commitCard_reverts (rules : Rules) (p : PlayerId) (card : Card) (choice : Option Nat)
    (target : Option CardId) : Reverts (commitCard rules p card choice target) := by
  refine Reverts.bind_of_alike (readPlayer_alike p) fun _ player u _ => ?_
  refine Reverts.bind_of_alike (ofExcept_alike _) (fun _ plan v _ => ?_) u
  split
  · exact NeverRefuses.reverts (StopsOnly.pure _) v
  · exact commit_reverts plan rules true v

theorem startTokens_covered (player : Player) (card : Card) :
    KeepsFrom (Snapshot player) (Covered []) (startTokens player card) := by
  unfold startTokens
  split
  · exact Noted.overwrite_covered player _
  · exact (Keeps.pure ()).from _

theorem writePlay_reverts (rules : Rules) (player : Player) (card : Card) (r : PlayRequest)
    (paid : ResourceSet) :
    Noted.RevertsFrom (Snapshot player) (writePlay rules player card r paid) := by
  have hs := @Snapshot.covered player
  refine Noted.RevertsFrom.bind hs ((Noted.overwrite_covered player _).when _) fun _ => ?_
  refine Noted.RevertsFrom.bind hs (Noted.overwrite_covered player _) fun _ => ?_
  refine Noted.RevertsFrom.bind hs (Noted.overwrite_covered player _) fun _ => ?_
  refine Noted.RevertsFrom.bind hs (startTokens_covered player card) fun _ => ?_
  exact Noted.RevertsFrom.ofEngine (commitCard_reverts _ _ _ _ _)

theorem checkPlay_alike (book : Rulebook) (p : PlayerId) (r : PlayRequest) :
    Keeps World.Alike (checkPlay book p r) :=
  readGame_alike.bind fun _ => (readPlayer_alike p).bind fun _ =>
    (findCard_alike _ _).bind fun _ => (ofExcept_alike _).bind fun _ => Keeps.pure _

/-- A play goes by the player's record as it is. -/
theorem checkPlay_player? {book : Rulebook} {p : PlayerId} {r : PlayRequest} {w v : World}
    {player : Player} {card : Card} {paid : ResourceSet}
    (h : checkPlay book p r w = (.ok (player, card, paid), v)) : v.player? p = some player := by
  have ha := checkPlay_alike book p r w
  rw [h] at ha
  obtain ⟨game, w₁, hg, h⟩ := Steps.bind_eq_ok.mp h
  obtain ⟨player', w₂, hp, h⟩ := Steps.bind_eq_ok.mp h
  obtain ⟨card', w₃, -, h⟩ := Steps.bind_eq_ok.mp h
  obtain ⟨paid', w₄, -, h⟩ := Steps.bind_eq_ok.mp h
  obtain ⟨he, -⟩ := Steps.pure_eq_ok.mp h
  cases he
  rw [ha.player? p, ← (readGame_ok hg).2.player? p]
  exact (readPlayer_ok hp).1

theorem commitPlay_reverts (book : Rulebook) (p : PlayerId) (r : PlayRequest) :
    Reverts (commitPlay book p r) := by
  refine Reverts.bind_of_alike (checkPlay_alike book p r) fun w (player, card, paid) u hu => ?_
  refine RevertsAt.bind_neverRefuses (transact_reverts keepAll_game ?_) fun _ =>
    gameId_neverRefuses.bind fun _ => StopsOnly.pure _
  exact writePlay_reverts _ _ _ _ _ _ (Snapshot.of_player? (checkPlay_player? hu) [])

theorem commitUse_reverts (rules : Rules) (p : PlayerId) (card : CardId) (index : Nat)
    (choice : Option Nat) (target : Option CardId) :
    Reverts (commitUse rules p card index choice target) := by
  refine Reverts.bind_of_alike (readPlayer_alike p) fun _ player u _ => ?_
  refine Reverts.bind_of_alike (ofExcept_alike _) (fun _ action v _ => ?_) u
  exact Reverts.bind_of_alike (ofExcept_alike _) (fun _ plan v _ => commit_reverts plan rules true v) v

/-- The record of a player as it was read, once its tiles are noted. -/
structure TilesNoted (player : Player) (s : World × List Change) : Prop where
  snapshot : Snapshot player s
  noted : queueCells player.id ⊆ cellsOf s.2

theorem TilesNoted.covered {player : Player} (s t : World × List Change) (h : Covered [] s t)
    (hs : TilesNoted player s) : TilesNoted player t :=
  ⟨hs.snapshot.covered _ _ h, List.Subset.trans hs.noted (cellsOf_suffix h.older)⟩

theorem tiles_covered {α : Type} {player : Player} {x : Engine α}
    (hx : Keeps (World.Masked (queueCells player.id)) x) :
    KeepsFrom (TilesNoted player) (Covered []) (Noted.ofEngine x) :=
  fun (w, _) hs => Noted.covered_masked (hx w) fun _ => hs.noted

theorem placeTile_reverts (g : GameId) (c : Coord) (tile : TileKind) (owner : Option PlayerId) :
    Reverts (onStore (Store.placeTile g c tile owner)) := by
  intro w e v h
  obtain ⟨_, t, ht, -, rfl⟩ := onStore_eq_error.mp h
  exact ⟨rfl, (Store.placeTile_error ht).records⟩

/-- The board, which is not noted, is written last. -/
theorem writePlacement_reverts (rules : Rules) (player : Player) (offer : TileOffer) (c : Coord)
    (bonus : ResourceSet) :
    Noted.RevertsFrom (Snapshot player) (writePlacement rules player offer c bonus) := by
  have hs := @TilesNoted.covered player
  have hkept (f : PlayerField) : KeepsFrom (TilesNoted player) (Covered []) (Noted.overwrite player f) :=
    fun s h => Noted.overwrite_covered player f s h.snapshot
  have hopen : Keeps (World.Masked (queueCells player.id)) (update player.id (.tileOffer none)) :=
    fun w => (update_masked player.id _ w).mono (by simp [queueCells, PlayerField.write])
  rintro ⟨w, noted⟩ hw e t h
  have hn := Noted.note_tiles_covered hw
  have ht : TilesNoted player (w, .tiles player.id player.queue player.tileOffer :: noted) :=
    ⟨hw.covered _ _ hn, Noted.queueCells_subset player noted⟩
  refine hn.trans (Noted.RevertsFrom.bind hs (tiles_covered hopen) (fun _ => ?_) _ ht e t h)
  refine .bind hs ((hkept _).when _) fun _ => ?_
  refine .bind hs ((Noted.applySteps_covered rules _ _).from _) fun changes => ?_
  refine .bind hs ((Noted.covered_alike readGame_alike).from _) fun game => ?_
  refine .bind hs ((Noted.covered_alike (ofExcept_alike _)).from _) fun placed => ?_
  refine .bind hs (tiles_covered (offerNext_masked _ _)) fun _ => ?_
  refine .bind hs ((Noted.covered_alike gameId_alike).from _) fun g u hu e t h => ?_
  rcases Steps.bind_eq_error.mp h with h | ⟨_, v, -, h⟩
  · exact Noted.RevertsFrom.ofEngine (P := TilesNoted player) (placeTile_reverts _ _ _ _) u hu e t h
  · simp at h

theorem commitPlacement_reverts (rules : Rules) (p : PlayerId) (c : Coord) :
    Reverts (commitPlacement rules p c) := by
  intro w
  refine RevertsAt.bind_of_alike (readPlayer_alike p) fun player u hp hu => ?_
  obtain ⟨hp, -⟩ := readPlayer_ok hp
  refine RevertsAt.bind_of_alike (ofExcept_alike _) fun offer v _ hv => ?_
  refine RevertsAt.bind_of_alike readGame_alike fun game x _ hx => ?_
  have hp : x.player? p = some player := by rw [hx.player?, hv.player?, hu.player?, hp]
  refine RevertsAt.bind_neverRefuses (transact_reverts keepAll_game ?_) fun _ =>
    gameId_neverRefuses.bind fun _ => StopsOnly.pure _
  exact writePlacement_reverts _ _ _ _ _ _ (Snapshot.of_player? hp [])

/-- A play or a use of an action that is refused leaves all games and players as they were,
whichever call on the store or the deck stopped it, unless a write fails while rewinding. -/
theorem play_useAction_refused (book : Rulebook) (p : PlayerId) (w v : World) (e : Refusal) :
    (∀ r, play book p r w = (.error (.refused e true), v) →
      v.store.games = w.store.games ∧ v.store.rosters = w.store.rosters) ∧
    (∀ card index choice target,
      useAction book p card index choice target w = (.error (.refused e true), v) →
        v.store.games = w.store.games ∧ v.store.rosters = w.store.rosters) := by
  refine ⟨fun r h => ?_, fun card index choice target h => ?_⟩
  · have hr := (commitPlay_reverts book p r w).bind_neverRefuses (announce_neverRefuses book)
    exact (hr e v h).tables
  · have hr := (commitUse_reverts book.rules p card index choice target w).bind_neverRefuses
      (announce_neverRefuses book)
    exact (hr e v h).tables

/-- A card with three effects, the last of which fails to be written. -/
def threefold : Card where
  id := "threefold"
  name := "Threefold"
  type := .automated
  behaviors := [.immediate [
    { kind := .production .heat, amount := 1 },
    { kind := .resource .plants, amount := 2 },
    { kind := .terraformRating, amount := 1 }]]

def ratingDown : World where
  store := {
    games := [("game", { id := "game" })]
    rosters := [("game", [{ Player.named "player" with hand := ["threefold"] }])]
    outages := fun c => if c = .write .rating then [{ times := 1 }] else [] }
  session := { game := "game" }

theorem play_refused_ratingDown :
    let book : Rulebook := { catalog := ⟨[threefold]⟩, rules := {}, depth := 8 }
    let after := play book "player" { card := "threefold" } ratingDown
    after.1 = .error (.refused Store.unavailable true) ∧
      after.2.store.rosters = ratingDown.store.rosters := by
  intro book after
  have h : after.1 = .error (.refused Store.unavailable true) := rfl
  exact ⟨h, ((play_useAction_refused book "player" ratingDown after.2 _).1 _ (Prod.ext h rfl)).2⟩

end Engine

end MarsRules
