import MarsRules.Engine
import MarsRules.Proofs.Records
import MarsRules.Proofs.Steps

/-! What the calls on the store do to the records: looking something up does nothing to them, an
update that succeeds writes its entry, and one that fails writes nothing. -/

namespace MarsRules

open Steps (Keeps)

namespace Store

/-- The same records and decks; what is unavailable may differ. -/
structure Alike (s t : Store) : Prop where
  records : t.records = s.records
  decks : t.decks = s.decks

instance : Std.Refl Alike := ⟨fun _ => ⟨rfl, rfl⟩⟩

instance : Trans Alike Alike Alike :=
  ⟨fun h h' => ⟨h'.records.trans h.records, h'.decks.trans h.decks⟩⟩

theorem call_alike (s : Store) (c : Call) : Alike s (s.call c).2 := by
  unfold call
  split <;> exact ⟨rfl, rfl⟩

theorem perform_alike (c : Call) : Keeps Alike (perform c) := by
  intro s
  have h := call_alike s c
  unfold perform
  rcases hc : s.call c with ⟨_ | _, t⟩ <;> simpa [hc] using h

theorem thePlayer_eq_ok {g : GameId} {p : PlayerId} {s t : Store} {player : Player} :
    thePlayer g p s = (.ok player, t) ↔ s.records.player? g p = some player ∧ s = t := by
  have hsame : s.player? g p = s.records.player? g p := rfl
  cases h : s.records.player? g p <;> simp [thePlayer, hsame, h]

theorem thePlayer_snd (g : GameId) (p : PlayerId) (s : Store) : (thePlayer g p s).2 = s := by
  unfold thePlayer
  split <;> rfl

theorem theGame_eq_ok {g : GameId} {s t : Store} {game : Game} :
    theGame g s = (.ok game, t) ↔ s.records.game? g = some game ∧ s = t := by
  have hsame : s.game? g = s.records.game? g := rfl
  cases h : s.records.game? g <;> simp [theGame, hsame, h]

theorem theGame_snd (g : GameId) (s : Store) : (theGame g s).2 = s := by
  unfold theGame
  split <;> rfl

theorem thePlayer_alike (g : GameId) (p : PlayerId) : Keeps Alike (thePlayer g p) := by
  intro s
  rw [thePlayer_snd]
  exact Std.Refl.refl s

theorem theGame_alike (g : GameId) : Keeps Alike (theGame g) := by
  intro s
  rw [theGame_snd]
  exact Std.Refl.refl s

theorem readPlayer_alike (g : GameId) (p : PlayerId) : Keeps Alike (readPlayer g p) :=
  (perform_alike _).bind fun _ => thePlayer_alike g p

theorem readGame_alike (g : GameId) : Keeps Alike (readGame g) :=
  (perform_alike _).bind fun _ => theGame_alike g

theorem readRoster_alike (g : GameId) : Keeps Alike (readRoster g) :=
  (perform_alike _).bind fun _ => Keeps.read.bind fun _ => Keeps.pure _

variable {g : GameId} {p : PlayerId} {s t : Store}

theorem readPlayer_ok {player : Player} (h : readPlayer g p s = (.ok player, t)) :
    s.records.player? g p = some player ∧ Alike s t := by
  obtain ⟨_, u, hu, ht⟩ := Steps.bind_eq_ok.mp h
  obtain ⟨hp, rfl⟩ := thePlayer_eq_ok.mp ht
  have hs := perform_alike (Read.player : Call) s
  rw [hu] at hs
  exact ⟨hs.records ▸ hp, hs⟩

theorem readGame_ok {game : Game} (h : readGame g s = (.ok game, t)) :
    s.records.game? g = some game ∧ Alike s t := by
  obtain ⟨_, u, hu, ht⟩ := Steps.bind_eq_ok.mp h
  obtain ⟨hg, rfl⟩ := theGame_eq_ok.mp ht
  have hs := perform_alike (Read.game : Call) s
  rw [hu] at hs
  exact ⟨hs.records ▸ hg, hs⟩

theorem readRoster_ok {players : List Player} (h : readRoster g s = (.ok players, t)) :
    players = s.records.roster g ∧ Alike s t := by
  obtain ⟨_, u, hu, ht⟩ := Steps.bind_eq_ok.mp h
  obtain ⟨_, _, hread, ht⟩ := Steps.bind_eq_ok.mp ht
  cases hread
  obtain ⟨rfl, rfl⟩ := Steps.pure_eq_ok.mp ht
  have hs := (perform_alike (Read.roster : Call)).apply hu
  exact ⟨congrArg (Records.roster · g) hs.records, hs⟩

/-- A change that succeeds is made on a player who is there. -/
theorem changePlayer_ok {f : Player → Player} (h : changePlayer g p f s = (.ok (), t)) :
    (∃ player, s.records.player? g p = some player) ∧
      t.records = s.records.changePlayer g p f ∧ t.decks = s.decks := by
  obtain ⟨player, u, hu, ht⟩ := Steps.bind_eq_ok.mp h
  obtain ⟨hp, rfl⟩ := thePlayer_eq_ok.mp hu
  obtain rfl : _ = t := congrArg Prod.snd ht
  refine ⟨⟨player, hp⟩, ?_, rfl⟩
  unfold Records.changePlayer
  cases hr : s.records.rosters.get? g with
  | none => simp [Records.player?, Records.roster, hr] at hp
  | some players =>
    have hr' : s.rosters.get? g = some players := hr
    simp [records, roster, hr']

theorem changePlayer_error {f : Player → Player} {e : Refusal}
    (h : changePlayer g p f s = (.error e, t)) : s = t := by
  rcases Steps.bind_eq_error.mp h with hu | ⟨_, _, _, ht⟩
  · have := thePlayer_snd g p s
    rw [hu] at this
    exact this.symm
  · simp at ht

theorem changeGame_ok {f : Game → Game} (h : changeGame g f s = (.ok (), t)) :
    t.records = s.records.changeGame g f ∧ t.decks = s.decks := by
  obtain ⟨game, u, hu, ht⟩ := Steps.bind_eq_ok.mp h
  obtain ⟨hg, rfl⟩ := theGame_eq_ok.mp hu
  obtain rfl : _ = t := congrArg Prod.snd ht
  have hg' : s.games.get? g = some game := hg
  simp [Records.changeGame, records, hg']

theorem changeGame_error {f : Game → Game} {e : Refusal}
    (h : changeGame g f s = (.error e, t)) : s = t := by
  rcases Steps.bind_eq_error.mp h with hu | ⟨_, _, _, ht⟩
  · have := theGame_snd g s
    rw [hu] at this
    exact this.symm
  · simp at ht

theorem updatePlayer_ok {f : PlayerField} (h : updatePlayer g p f s = (.ok (), t)) :
    (∃ player, s.records.player? g p = some player) ∧
      t.records = (Entry.player p f).put g s.records ∧ t.decks = s.decks := by
  obtain ⟨_, u, hu, ht⟩ := Steps.bind_eq_ok.mp h
  have hs := perform_alike f.write s
  rw [hu] at hs
  rw [← hs.records, ← hs.decks]
  exact changePlayer_ok ht

theorem updatePlayer_error {f : PlayerField} {e : Refusal}
    (h : updatePlayer g p f s = (.error e, t)) : Alike s t := by
  have hs := perform_alike f.write s
  rcases Steps.bind_eq_error.mp h with hu | ⟨_, u, hu, ht⟩
  · rwa [hu] at hs
  · rw [hu] at hs
    rwa [← changePlayer_error ht]

theorem updateGame_ok {f : GameField} (h : updateGame g f s = (.ok (), t)) :
    t.records = s.records.changeGame g f.put ∧ t.decks = s.decks := by
  obtain ⟨_, u, hu, ht⟩ := Steps.bind_eq_ok.mp h
  have hs := perform_alike f.write s
  rw [hu] at hs
  rw [← hs.records, ← hs.decks]
  exact changeGame_ok ht

theorem updateGame_error {f : GameField} {e : Refusal}
    (h : updateGame g f s = (.error e, t)) : Alike s t := by
  have hs := perform_alike f.write s
  rcases Steps.bind_eq_error.mp h with hu | ⟨_, u, hu, ht⟩
  · rwa [hu] at hs
  · rw [hu] at hs
    rwa [← changeGame_error ht]

variable {source : String} {tiles : List TileKind}

theorem addTiles_changes (h : addTiles g p source tiles s = (.ok (), t)) (ht : tiles ≠ []) :
    (∃ player, s.records.player? g p = some player) ∧
      t.records = s.records.changePlayer g p
        (fun x => { x with queue := some (TileQueue.extend source tiles x.queue) }) ∧
      t.decks = s.decks := by
  obtain ⟨_, u, hu, h⟩ := Steps.bind_eq_ok.mp h
  have hs := perform_alike (Write.moreTiles : Call) s
  rw [hu] at hs
  rw [if_neg (by simpa using ht)] at h
  rw [← hs.records, ← hs.decks]
  exact changePlayer_ok h

/-- More tiles for a queue are one entry, as the player who gets them is known. -/
theorem addTiles_ok (h : addTiles g p source tiles s = (.ok (), t)) :
    Alike s t ∨ ∃ q, t.records = (Entry.player p (.queue q)).put g s.records := by
  by_cases ht : tiles = []
  · obtain ⟨_, u, hu, h⟩ := Steps.bind_eq_ok.mp h
    have hs := perform_alike (Write.moreTiles : Call) s
    rw [hu] at hs
    rw [if_pos (by simp [ht])] at h
    obtain ⟨-, rfl⟩ := Steps.pure_eq_ok.mp h
    exact .inl hs
  · obtain ⟨⟨player, hp⟩, hr, -⟩ := addTiles_changes h ht
    refine .inr ⟨some (TileQueue.extend source tiles player.queue), ?_⟩
    rw [hr]
    refine Records.changePlayer_congr fun x hx => ?_
    obtain rfl : player = x := Option.some.inj (hp.symm.trans hx)
    rfl

theorem addTiles_error {e : Refusal} (h : addTiles g p source tiles s = (.error e, t)) :
    Alike s t := by
  have hs := perform_alike (Write.moreTiles : Call) s
  rcases Steps.bind_eq_error.mp h with hu | ⟨_, u, hu, ht⟩
  · rwa [hu] at hs
  · rw [hu] at hs
    split at ht
    · simp at ht
    · rwa [← changePlayer_error ht]

theorem drawCards_ok {n : Nat} {cards : List CardId} (h : drawCards g n s = (.ok cards, t)) :
    ∃ deck, s.decks.get? g = some deck ∧ cards = deck.take n ∧ t.records = s.records ∧
      t.decks = s.decks.put g (deck.drop n) := by
  obtain ⟨_, u, hu, h⟩ := Steps.bind_eq_ok.mp h
  have hs := perform_alike (Write.drawCards : Call) s
  rw [hu] at hs
  obtain ⟨_, _, hread, h⟩ := Steps.bind_eq_ok.mp h
  cases hread
  rw [← hs.records, ← hs.decks]
  cases hd : u.decks.get? g with
  | none => simp [hd] at h
  | some deck =>
    simp only [hd] at h
    cases h
    exact ⟨deck, rfl, rfl, rfl, rfl⟩

variable {c : Coord} {tile : TileKind} {owner : Option PlayerId}

/-- Placing a tile writes the board with the tile on it. -/
theorem placeTile_ok {bonus : ResourceSet} (h : placeTile g c tile owner s = (.ok bonus, t)) :
    ∃ game board, s.records.game? g = some game ∧ game.board.occupy c tile owner = .ok (bonus, board) ∧
      t.records = s.records.changeGame g ({ · with board }) ∧ t.decks = s.decks := by
  obtain ⟨_, u, hu, h⟩ := Steps.bind_eq_ok.mp h
  obtain ⟨game, _, hgame, h⟩ := Steps.bind_eq_ok.mp h
  obtain ⟨hg, rfl⟩ := theGame_eq_ok.mp hgame
  obtain ⟨⟨_, board⟩, _, hboard, h⟩ := Steps.bind_eq_ok.mp h
  obtain ⟨ho, rfl⟩ := Steps.ofExcept_eq_ok.mp hboard
  obtain ⟨_, v, hv, h⟩ := Steps.bind_eq_ok.mp h
  obtain ⟨rfl, rfl⟩ := Steps.pure_eq_ok.mp h
  have hs := perform_alike (Write.placeTile : Call) s
  rw [hu] at hs
  rw [← hs.records, ← hs.decks]
  exact ⟨game, board, hg, ho, changeGame_ok hv⟩

theorem placeTile_error {e : Refusal} (h : placeTile g c tile owner s = (.error e, t)) :
    Alike s t := by
  have hs := perform_alike (Write.placeTile : Call) s
  rcases Steps.bind_eq_error.mp h with hu | ⟨_, u, hu, h⟩
  · rwa [hu] at hs
  rw [hu] at hs
  rcases Steps.bind_eq_error.mp h with hg | ⟨game, _, hg, h⟩
  · exact Trans.trans hs ((theGame_alike g).apply hg)
  obtain ⟨-, rfl⟩ := theGame_eq_ok.mp hg
  rcases Steps.bind_eq_error.mp h with hb | ⟨placed, _, hb, h⟩
  · rwa [show u = t from (Steps.ofExcept_snd _ u).symm.trans (congrArg Prod.snd hb)] at hs
  obtain ⟨-, rfl⟩ := Steps.ofExcept_eq_ok.mp hb
  rcases Steps.bind_eq_error.mp h with hc | ⟨_, _, _, h⟩
  · rwa [← changeGame_error hc]
  · simp at h

/-- Drawing takes from the deck only. -/
theorem drawCards_records (g : GameId) (n : Nat) (s : Store) :
    (drawCards g n s).2.records = s.records := by
  have hs := (perform_alike (Write.drawCards : Call) s).records
  unfold drawCards
  rw [Steps.bind_apply]
  rcases h : perform (Write.drawCards : Call) s with ⟨_ | _, t⟩ <;> rw [h] at hs
  · exact hs
  · rw [← hs]
    simp only [Steps.bind_apply, Steps.read_apply]
    cases t.decks.get? g <;> rfl

end Store

namespace World

/-- The same session, records and decks. -/
structure Alike (w v : World) : Prop where
  session : v.session = w.session
  store : Store.Alike w.store v.store

instance : Std.Refl Alike := ⟨fun _ => ⟨rfl, Std.Refl.refl _⟩⟩

instance : Trans Alike Alike Alike :=
  ⟨fun h h' => ⟨h'.session.trans h.session, Trans.trans h.store h'.store⟩⟩

def records (w : World) : Records := w.store.records

def game (w : World) : GameId := w.session.game

/-- The record of a player of the session's game. -/
def player? (w : World) (p : PlayerId) : Option Player := w.records.player? w.game p

theorem Alike.player? {w v : World} (h : Alike w v) (p : PlayerId) : v.player? p = w.player? p := by
  show v.store.records.player? v.session.game p = _
  rw [h.session, h.store.records]; rfl

end World

namespace Engine

variable {α : Type} {p : PlayerId} {w v : World}

theorem onStore_eq_ok {x : StoreSteps α} {a : α} :
    onStore x w = (.ok a, v) ↔ ∃ t, x w.store = (.ok a, t) ∧ v = { w with store := t } := by
  unfold onStore
  rcases x w.store with ⟨_ | b, t⟩
  · simp
  · constructor
    · intro h; cases h; exact ⟨t, rfl, rfl⟩
    · rintro ⟨_, h, rfl⟩; cases h; rfl

theorem onStore_eq_error {x : StoreSteps α} {stop : Stop} :
    onStore x w = (.error stop, v) ↔
      ∃ e t, x w.store = (.error e, t) ∧ stop = .refused e true ∧ v = { w with store := t } := by
  unfold onStore
  rcases x w.store with ⟨e | _, t⟩
  · constructor
    · intro h; cases h; exact ⟨e, t, rfl, rfl, rfl⟩
    · rintro ⟨_, _, h, rfl, rfl⟩; cases h; rfl
  · simp

theorem onStore_alike {x : StoreSteps α} (h : Keeps Store.Alike x) :
    Keeps World.Alike (onStore x) := by
  intro w
  have hs := h w.store
  unfold onStore
  rcases hx : x w.store with ⟨_ | _, t⟩ <;> rw [hx] at hs <;> exact ⟨rfl, hs⟩

theorem ofExcept_eq_ok {y : Except Refusal α} {a : α} :
    ofExcept y w = (.ok a, v) ↔ y = .ok a ∧ w = v := by
  cases y <;> simp [ofExcept, refuse]

theorem ofExcept_of_error {y : Except Refusal α} {e : Refusal} (h : y = .error e) :
    ofExcept y w = (.error (.refused e true), w) := by
  rw [h]
  rfl

/-- Steps end as they do alone, unless they are refused: then something is put back, well or not. -/
theorem orElse_cases {x : Engine α} {putBack : Engine Unit} {result : Except Stop α}
    (h : x.orElse putBack w = (result, v)) :
    (x w = (result, v) ∧ ∀ e restored, result ≠ .error (.refused e restored)) ∨
    ∃ e restored u, x w = (.error (.refused e restored), u) ∧
      (putBack u = (.ok (), v) ∧ result = .error (.refused e restored) ∨
        ∃ stop, putBack u = (.error stop, v) ∧
          ((∃ e' b, stop = .refused e' b ∧ result = .error (.refused e' false)) ∨
            (∀ e' b, stop ≠ .refused e' b) ∧ result = .error stop)) := by
  unfold orElse at h
  rcases hx : x w with ⟨stop | a, u⟩ <;> rw [hx] at h
  · cases stop with
    | refused e restored =>
      refine .inr ⟨e, restored, u, rfl, ?_⟩
      rcases hback : putBack u with ⟨stop | _, t⟩ <;> simp only [hback] at h
      · cases stop with
        | refused e' b =>
          cases h
          exact .inr ⟨_, rfl, .inl ⟨e', b, rfl, rfl⟩⟩
        | brokenRange | tooDeep =>
          cases h
          exact .inr ⟨_, rfl, .inr ⟨nofun, rfl⟩⟩
      · cases h
        exact .inl ⟨rfl, rfl⟩
    | brokenRange | tooDeep =>
      cases h
      exact .inl ⟨rfl, nofun⟩
  · cases h
    exact .inl ⟨rfl, nofun⟩

theorem orElse_eq_ok {x : Engine α} {putBack : Engine Unit} {a : α} :
    x.orElse putBack w = (.ok a, v) ↔ x w = (.ok a, v) := by
  refine ⟨fun h => ?_, fun h => by rw [orElse, h]⟩
  rcases orElse_cases h with ⟨hx, -⟩ | ⟨_, _, _, -, ⟨-, he⟩ | ⟨_, -, ⟨_, _, -, he⟩ | ⟨-, he⟩⟩⟩
  · exact hx
  all_goals cases he

/-- What is put back when the steps are refused has to be put back well. -/
theorem orElse_eq_restored {x : Engine α} {putBack : Engine Unit} {e : Refusal}
    (h : x.orElse putBack w = (.error (.refused e true), v)) :
    ∃ u, x w = (.error (.refused e true), u) ∧ putBack u = (.ok (), v) := by
  rcases orElse_cases h with
    ⟨-, hnever⟩ | ⟨e, restored, u, hx, ⟨hback, he⟩ | ⟨stop, -, ⟨_, _, -, he⟩ | ⟨hnever, he⟩⟩⟩
  · exact absurd rfl (hnever e true)
  · cases he
    exact ⟨u, hx, hback⟩
  · cases he
  · cases he
    exact absurd rfl (hnever _ true)

/-- Steps that are refused are put back, well or not. -/
theorem orElse_refused {x : Engine α} {putBack : Engine Unit} {e : Refusal} {b : Bool}
    (h : x.orElse putBack w = (.error (.refused e b), v)) :
    ∃ e' b' u, x w = (.error (.refused e' b'), u) ∧
      (putBack u = (.ok (), v) ∧ b = b' ∨ (∃ stop, putBack u = (.error stop, v)) ∧ b = false) := by
  rcases orElse_cases h with
    ⟨-, hnever⟩ | ⟨e', b', u, hx, ⟨hback, he⟩ | ⟨stop, hback, ⟨_, _, -, he⟩ | ⟨hnever, he⟩⟩⟩
  · exact absurd rfl (hnever e b)
  · cases he
    exact ⟨e, b, u, hx, .inl ⟨hback, rfl⟩⟩
  · cases he
    exact ⟨e', b', u, hx, .inr ⟨⟨stop, hback⟩, rfl⟩⟩
  · cases he
    exact absurd rfl (hnever _ b)

theorem ofExcept_alike (y : Except Refusal α) : Keeps World.Alike (ofExcept y) := by
  cases y
  · exact Keeps.stop _
  · exact Keeps.pure _

theorem gameId_alike : Keeps World.Alike gameId := fun w => Std.Refl.refl w

theorem readPlayer_alike (p : PlayerId) : Keeps World.Alike (readPlayer p) :=
  gameId_alike.bind fun g => onStore_alike (Store.readPlayer_alike g p)

theorem readGame_alike : Keeps World.Alike readGame :=
  gameId_alike.bind fun g => onStore_alike (Store.readGame_alike g)

theorem findCard_alike (cat : Catalog) (id : CardId) : Keeps World.Alike (findCard cat id) :=
  (onStore_alike (Store.perform_alike _)).bind fun _ => ofExcept_alike _

theorem findCard_ok {cat : Catalog} {id : CardId} {card : Card}
    (h : findCard cat id w = (.ok card, v)) : cat.find? id = some card := by
  obtain ⟨_, u, -, h⟩ := Steps.bind_eq_ok.mp h
  obtain ⟨h, -⟩ := ofExcept_eq_ok.mp h
  unfold Catalog.find at h
  split at h
  · next hc => cases h; exact hc
  · cases h

theorem readPlayer_ok {player : Player} (h : readPlayer p w = (.ok player, v)) :
    w.player? p = some player ∧ World.Alike w v := by
  obtain ⟨t, ht, rfl⟩ := onStore_eq_ok.mp (show onStore _ w = _ from h)
  obtain ⟨hp, hs⟩ := Store.readPlayer_ok ht
  exact ⟨hp, rfl, hs⟩

theorem readGame_ok {game : Game} (h : readGame w = (.ok game, v)) :
    w.records.game? w.game = some game ∧ World.Alike w v := by
  obtain ⟨t, ht, rfl⟩ := onStore_eq_ok.mp (show onStore _ w = _ from h)
  obtain ⟨hp, hs⟩ := Store.readGame_ok ht
  exact ⟨hp, rfl, hs⟩

/-- An update that succeeds writes its entry and nothing else. -/
theorem update_ok {f : PlayerField} (h : update p f w = (.ok (), v)) :
    (∃ player, w.player? p = some player) ∧ v.session = w.session ∧
      v.records = (Entry.player p f).put w.game w.records ∧ v.store.decks = w.store.decks := by
  obtain ⟨t, ht, rfl⟩ := onStore_eq_ok.mp (show onStore _ w = _ from h)
  obtain ⟨hp, hr, hd⟩ := Store.updatePlayer_ok ht
  exact ⟨hp, rfl, hr, hd⟩

theorem update_error {f : PlayerField} {stop : Stop} (h : update p f w = (.error stop, v)) :
    World.Alike w v := by
  obtain ⟨e, t, ht, -, rfl⟩ := onStore_eq_error.mp (show onStore _ w = _ from h)
  exact ⟨rfl, Store.updatePlayer_error ht⟩

theorem updateGame_ok {f : GameField} (h : updateGame f w = (.ok (), v)) :
    v.session = w.session ∧ v.records = w.records.changeGame w.game f.put ∧
      v.store.decks = w.store.decks := by
  obtain ⟨t, ht, rfl⟩ := onStore_eq_ok.mp (show onStore _ w = _ from h)
  exact ⟨rfl, Store.updateGame_ok ht⟩

theorem updateGame_error {f : GameField} {stop : Stop} (h : updateGame f w = (.error stop, v)) :
    World.Alike w v := by
  obtain ⟨e, t, ht, -, rfl⟩ := onStore_eq_error.mp (show onStore _ w = _ from h)
  exact ⟨rfl, Store.updateGame_error ht⟩

end Engine

end MarsRules
