import MarsRules.Proofs.Atomicity
import MarsRules.Proofs.Readiness

/-! Two runs side by side. Steps are confined to a game if all they go by is the game's records and the
session that plays it, and if they change no more than that. Confined steps make up confined ones, so
it is enough to look at the calls on the store and at the ways of putting steps together. -/

namespace MarsRules

open Steps (Keeps)

namespace Steps

variable {ε σ α β : Type} {R E : σ → σ → Prop} {x : Steps ε σ α} {f : α → Steps ε σ β}

/-- What the steps answer, and what they do, goes by what `R` says that two states have in common;
and what they do is no more than `E` says. -/
structure Confined (R E : σ → σ → Prop) (x : Steps ε σ α) : Prop where
  alike : ∀ s t, R s t → (x s).1 = (x t).1 ∧ R (x s).2 (x t).2
  within : Keeps E x

namespace Confined

theorem runs (h : Confined R E x) {s t : σ} (hst : R s t) :
    ∃ r s' t', x s = (r, s') ∧ x t = (r, t') ∧ R s' t' := by
  obtain ⟨hr, hafter⟩ := h.alike s t hst
  exact ⟨(x s).1, (x s).2, (x t).2, rfl, Prod.ext hr.symm rfl, hafter⟩

theorem change {g : σ → σ} (hR : ∀ s t, R s t → R (g s) (g t)) (hE : ∀ s, E s (g s)) :
    Confined R E (Steps.change g : Steps ε σ Unit) := ⟨fun s t h => ⟨rfl, hR s t h⟩, hE⟩

/-- Going on by what two states have in common. -/
theorem read_bind {γ : Type} {v : σ → γ} {f : γ → Steps ε σ α} (hv : ∀ s t, R s t → v s = v t)
    (hf : ∀ c, Confined R E (f c)) : Confined R E (Steps.read >>= fun s => f (v s)) where
  alike s t h := by
    show (f (v s) s).1 = (f (v t) t).1 ∧ R (f (v s) s).2 (f (v t) t).2
    rw [hv s t h]
    exact (hf _).alike s t h
  within s := (hf (v s)).within s

theorem bind [Trans E E E] (hx : Confined R E x) (hf : ∀ a, Confined R E (f a)) :
    Confined R E (x >>= f) where
  alike s t h := by
    obtain ⟨_ | a, s', t', hs, ht, hafter⟩ := hx.runs h
    · rw [bind_apply_error hs, bind_apply_error ht]
      exact ⟨rfl, hafter⟩
    · rw [bind_apply_ok hs, bind_apply_ok ht]
      exact (hf a).alike s' t' hafter
  within := hx.within.bind fun a => (hf a).within

variable [Std.Refl E]

/-- Looking at what two states have in common. -/
theorem look {r : σ → Except ε α} (hx : ∀ s, x s = (r s, s)) (hr : ∀ s t, R s t → r s = r t) :
    Confined R E x where
  alike s t h := by
    rw [hx, hx]
    exact ⟨hr s t h, h⟩
  within s := by
    rw [hx]
    exact Std.Refl.refl s

theorem pure (a : α) : Confined R E (Pure.pure a : Steps ε σ α) := look (fun _ => rfl) fun _ _ _ => rfl

theorem stop (e : ε) : Confined R E (Steps.stop e : Steps ε σ α) :=
  look (fun _ => rfl) fun _ _ _ => rfl

theorem ofExcept (y : Except ε α) : Confined R E (Steps.ofExcept y) :=
  look (r := fun _ => y) (fun s => by cases y <;> rfl) fun _ _ _ => rfl

end Confined

end Steps

open Steps (Confined)

namespace Store

variable {α : Type} {g : GameId} {p : PlayerId} {s t : Store}

/-- Two stores that hold the same for a game, and that no call on is going to fail. -/
structure AgreesOn (g : GameId) (s t : Store) : Prop where
  game : s.games.get? g = t.games.get? g
  roster : s.rosters.get? g = t.rosters.get? g
  deck : s.decks.get? g = t.decks.get? g
  reliable : s.Reliable ∧ t.Reliable

/-- What is stored for other games stays. -/
structure OnlyOn (g : GameId) (s t : Store) : Prop where
  games : ∀ g', g' ≠ g → t.games.get? g' = s.games.get? g'
  rosters : ∀ g', g' ≠ g → t.rosters.get? g' = s.rosters.get? g'
  decks : ∀ g', g' ≠ g → t.decks.get? g' = s.decks.get? g'

instance : Std.Refl (OnlyOn g) := ⟨fun _ => ⟨fun _ _ => rfl, fun _ _ => rfl, fun _ _ => rfl⟩⟩

instance : Trans (OnlyOn g) (OnlyOn g) (OnlyOn g) := ⟨fun h h' =>
  ⟨fun g' hg => (h'.games g' hg).trans (h.games g' hg),
    fun g' hg => (h'.rosters g' hg).trans (h.rosters g' hg),
    fun g' hg => (h'.decks g' hg).trans (h.decks g' hg)⟩⟩

theorem Alike.onlyOn (h : Alike s t) : OnlyOn g s t where
  games g' _ := congrArg (fun r : Records => r.games.get? g') h.records
  rosters g' _ := congrArg (fun r : Records => r.rosters.get? g') h.records
  decks g' _ := congrArg (Table.get? · g') h.decks

/-- Stores that hold what these hold. -/
theorem AgreesOn.of_alike {s' t' : Store} (h : AgreesOn g s t) (hs : Alike s s') (ht : Alike t t')
    (reliable : s'.Reliable ∧ t'.Reliable) : AgreesOn g s' t' where
  game := (congrArg (·.games.get? g) hs.records).trans (h.game.trans (congrArg (·.games.get? g) ht.records).symm)
  roster := (congrArg (·.rosters.get? g) hs.records).trans
    (h.roster.trans (congrArg (·.rosters.get? g) ht.records).symm)
  deck := (congrArg (·.get? g) hs.decks).trans (h.deck.trans (congrArg (·.get? g) ht.decks).symm)
  reliable := reliable

/-- The steps go by the records and the deck of one game, and change no others. -/
abbrev Apart (g : GameId) (x : StoreSteps α) : Prop := Confined (AgreesOn g) (OnlyOn g) x

theorem perform_of_reliable (h : s.Reliable) (c : Call) : perform c s = (.ok (), (s.call c).2) := by
  have hc := (h.call c).1
  unfold perform
  rcases hcall : s.call c with ⟨_ | _, t⟩ <;> simp_all

theorem perform_apart (c : Call) : Apart g (perform c) where
  alike s t h := by
    rw [perform_of_reliable h.reliable.1, perform_of_reliable h.reliable.2]
    exact ⟨rfl, h.of_alike (call_alike s c) (call_alike t c)
      ⟨(h.reliable.1.call c).2, (h.reliable.2.call c).2⟩⟩
  within s := (perform_alike c s).onlyOn

theorem theGame_apart : Apart g (theGame g) :=
  .look (r := fun s => (s.game? g).elim (.error (.gameNotFound g)) .ok)
    (fun s => by unfold theGame; cases s.game? g <;> rfl)
    fun s t h => by simp only [game?, h.game]

theorem thePlayer_apart : Apart g (thePlayer g p) :=
  .look (r := fun s => (s.player? g p).elim (.error (.playerNotFound g p)) .ok)
    (fun s => by unfold thePlayer; cases s.player? g p <;> rfl)
    fun s t h => by simp only [player?, roster, h.roster]

theorem readGame_apart : Apart g (readGame g) := (perform_apart _).bind fun _ => theGame_apart

theorem readPlayer_apart : Apart g (readPlayer g p) := (perform_apart _).bind fun _ => thePlayer_apart

theorem readRoster_apart : Apart g (readRoster g) :=
  (perform_apart _).bind fun _ => .look (r := fun s => .ok (s.roster g)) (fun _ => rfl)
    fun s t h => by simp only [roster, h.roster]

theorem changePlayer_apart (f : Player → Player) : Apart g (changePlayer g p f) := by
  refine thePlayer_apart.bind fun _ => .change (fun s t h => { h with roster := ?_ }) fun s => ?_
  · simp only [Table.get?_put_self, roster, h.roster]
  · exact { (Std.Refl.refl s : OnlyOn g s s) with rosters := fun g' hg => Table.get?_put_of_ne _ hg _ }

theorem changeGame_apart (f : Game → Game) : Apart g (changeGame g f) := by
  refine theGame_apart.bind fun _ => .change (fun s t h => { h with game := ?_ }) fun s => ?_
  · simp only [Table.get?_put_self]
  · exact { (Std.Refl.refl s : OnlyOn g s s) with games := fun g' hg => Table.get?_put_of_ne _ hg _ }

theorem updatePlayer_apart (f : PlayerField) : Apart g (updatePlayer g p f) :=
  (perform_apart _).bind fun _ => changePlayer_apart _

theorem updateGame_apart (f : GameField) : Apart g (updateGame g f) :=
  (perform_apart _).bind fun _ => changeGame_apart _

theorem addTiles_apart (source : String) (tiles : List TileKind) :
    Apart g (addTiles g p source tiles) := by
  refine (perform_apart _).bind fun _ => ?_
  split
  · exact .pure _
  · exact changePlayer_apart _

theorem placeTile_apart (c : Coord) (tile : TileKind) (owner : Option PlayerId) :
    Apart g (placeTile g c tile owner) :=
  (perform_apart _).bind fun _ => theGame_apart.bind fun _ => (Confined.ofExcept _).bind fun _ =>
    (changeGame_apart _).bind fun _ => .pure _

theorem drawCards_apart (n : Nat) : Apart g (drawCards g n) := by
  let draw (deck : Option (List CardId)) : StoreSteps (List CardId) :=
    deck.elim (Steps.stop (.gameNotFound g)) fun cards => do
      Steps.change fun s => s.setDeck g (cards.drop n)
      return cards.take n
  have hdraw (deck : Option (List CardId)) : Apart g (draw deck) := by
    cases deck with
    | none => exact .stop _
    | some cards =>
      refine Confined.bind (.change (fun s t h => { h with deck := ?_ }) fun s => ?_) fun _ => .pure _
      · simp only [setDeck, Table.get?_put_self]
      · exact { (Std.Refl.refl s : OnlyOn g s s) with decks := fun g' hg => Table.get?_put_of_ne _ hg _ }
  have heq : drawCards g n = perform Write.drawCards >>= fun _ =>
      Steps.read >>= fun s => draw (s.decks.get? g) := by
    refine congrArg _ (funext fun _ => congrArg _ (funext fun s => ?_))
    cases s.decks.get? g <;> rfl
  rw [heq]
  exact (perform_apart _).bind fun _ =>
    .read_bind (v := fun s : Store => s.decks.get? g) (fun _ _ h => h.deck) hdraw

end Store

/-- Two worlds in which the same session plays this game, with the same records and deck of it. -/
structure World.AgreesOn (g : GameId) (w v : World) : Prop where
  session : w.session = v.session
  game : w.session.game = g
  store : w.store.AgreesOn g v.store

/-- What a session on this game leaves: it stays on it, and what is stored for other games stays. -/
structure World.OnlyOn (g : GameId) (w v : World) : Prop where
  game : w.session.game = g → v.session.game = g
  store : w.session.game = g → w.store.OnlyOn g v.store

section World

variable {g : GameId}

instance : Std.Refl (World.OnlyOn g) := ⟨fun _ => ⟨id, fun _ => Std.Refl.refl _⟩⟩

instance : Trans (World.OnlyOn g) (World.OnlyOn g) (World.OnlyOn g) := ⟨fun h h' =>
  ⟨fun hg => h'.game (h.game hg), fun hg => Trans.trans (h.store hg) (h'.store (h.game hg))⟩⟩

end World

namespace Engine

variable {α β : Type} {g : GameId} {p : PlayerId}

/-- The steps of a session on this game go by it, and change nothing else. -/
abbrev Apart (g : GameId) (x : Engine α) : Prop := Confined (World.AgreesOn g) (World.OnlyOn g) x

theorem onStore_apart {x : StoreSteps α} (h : Store.Apart g x) : Apart g (onStore x) where
  alike w v hwv := by
    obtain ⟨r, s, t, hs, ht, hst⟩ := h.runs hwv.store
    unfold onStore
    rw [hs, ht]
    cases r <;> exact ⟨rfl, hwv.session, hwv.game, hst⟩
  within w := by
    have hx := h.within w.store
    unfold onStore
    rcases hs : x w.store with ⟨_ | _, s⟩ <;> rw [hs] at hx <;> exact ⟨id, fun _ => hx⟩

/-- The session is in common. -/
theorem session_apart : Apart g session :=
  .look (r := fun w => .ok w.session) (fun _ => rfl) fun w v h => by rw [h.session]

/-- The session's game is this one. -/
theorem gameId_bind {f : GameId → Engine α} (h : Apart g (f g)) : Apart g (gameId >>= f) where
  alike w v hwv := by
    show (f w.session.game w).1 = (f v.session.game v).1 ∧
      World.AgreesOn g (f w.session.game w).2 (f v.session.game v).2
    rw [← hwv.session, hwv.game]
    exact h.alike w v hwv
  within w := by
    constructor <;> intro hg
    · exact (show (f w.session.game w).2.session.game = g by
        rw [hg]; exact (h.within w).game hg)
    · exact (show w.store.OnlyOn g (f w.session.game w).2.store by
        rw [hg]; exact (h.within w).store hg)

theorem ofExcept_apart (y : Except Refusal α) : Apart g (ofExcept y) := by
  cases y
  · exact .stop _
  · exact .pure _

theorem readGame_apart : Apart g readGame := gameId_bind (onStore_apart Store.readGame_apart)

theorem readPlayer_apart : Apart g (readPlayer p) := gameId_bind (onStore_apart Store.readPlayer_apart)

theorem findCard_apart (cat : Catalog) (id : CardId) : Apart g (findCard cat id) :=
  (onStore_apart (Store.perform_apart _)).bind fun _ => ofExcept_apart _

theorem update_apart (f : PlayerField) : Apart g (update p f) :=
  gameId_bind (onStore_apart (Store.updatePlayer_apart f))

theorem updateGame_apart (f : GameField) : Apart g (updateGame f) :=
  gameId_bind (onStore_apart (Store.updateGame_apart f))

theorem changeSession_apart {f : Session → Session} (hf : ∀ s, (f s).game = s.game) :
    Apart g (changeSession f) :=
  .change (fun _ _ h => ⟨congrArg f h.session, (hf _).trans h.game, h.store⟩)
    fun _ => ⟨(hf _).trans, fun _ => Std.Refl.refl _⟩

theorem outcome_apart {x : Engine α} (h : Apart g x) : Apart g (outcome x) where
  alike w v hwv := by
    obtain ⟨r, w', v', hw, hv, hafter⟩ := h.runs hwv
    unfold outcome
    rw [hw, hv]
    rcases r with stop | a
    · cases stop <;> exact ⟨rfl, hafter⟩
    · exact ⟨rfl, hafter⟩
  within := outcome_keeps h.within

theorem orElse_keeps {R : World → World → Prop} [Trans R R R] {x : Engine α} {putBack : Engine Unit}
    (hx : Keeps R x) (hb : Keeps R putBack) : Keeps R (x.orElse putBack) := by
  intro w
  rcases h : x.orElse putBack w with ⟨result, v⟩
  rcases orElse_cases h with ⟨hw, -⟩ | ⟨_, _, u, hw, ⟨hv, -⟩ | ⟨_, hv, -⟩⟩
  · exact hx.apply hw
  · exact Trans.trans (hx.apply hw) (hb.apply hv)
  · exact Trans.trans (hx.apply hw) (hb.apply hv)

theorem orElse_apart {x : Engine α} {putBack : Engine Unit} (h : Apart g x) (hb : Apart g putBack) :
    Apart g (x.orElse putBack) where
  alike w v hwv := by
    obtain ⟨r, w', v', hw, hv, hafter⟩ := h.runs hwv
    obtain ⟨r', w'', v'', hw', hv', hback⟩ := hb.runs hafter
    unfold orElse
    rw [hw, hv]
    rcases r with stop | a
    · cases stop with
      | refused e restored =>
        dsimp only
        rw [hw', hv']
        rcases r' with stop | _
        · cases stop <;> exact ⟨rfl, hback⟩
        · exact ⟨rfl, hback⟩
      | brokenRange | tooDeep => exact ⟨rfl, hafter⟩
    · exact ⟨rfl, hafter⟩
  within := orElse_keeps h.within hb.within

end Engine

section Undo

variable {g : GameId} (drop : Dropping Session) {s t : Store}

/-- What is put back of two stores that agree on the game is the same. -/
theorem Change.undo_alike (h : s.AgreesOn g t) (c : Change) (d : Session) :
    ∃ r s' t' d', c.undo g drop s d = (r, s', d') ∧ c.undo g drop t d = (r, t', d') ∧
      s'.AgreesOn g t' := by
  have hstore {x : StoreSteps Unit} (hx : Store.Apart g x) : ∃ r s' t' d',
      ((x s).1, (x s).2, d) = (r, s', d') ∧ ((x t).1, (x t).2, d) = (r, t', d') ∧
        s'.AgreesOn g t' := by
    obtain ⟨hr, hafter⟩ := hx.alike s t h
    exact ⟨_, _, _, d, rfl, by rw [hr], hafter⟩
  cases c with
  | player p f => exact hstore (Store.updatePlayer_apart f)
  | tiles p queue offer =>
    exact hstore ((Store.updatePlayer_apart _).bind fun _ => Store.updatePlayer_apart _)
  | subscribed card => exact ⟨_, _, _, _, rfl, rfl, h⟩
  | parameter q n => exact hstore (Store.updateGame_apart _)

theorem Change.undo_onlyOn (c : Change) (d : Session) : s.OnlyOn g (c.undo g drop s d).2.1 := by
  cases c with
  | player p f => exact (Store.updatePlayer_apart f).within s
  | tiles p queue offer =>
    exact ((Store.updatePlayer_apart _).bind fun _ => Store.updatePlayer_apart _).within s
  | subscribed => exact Std.Refl.refl s
  | parameter q n => exact (Store.updateGame_apart _).within s

theorem UndoLog.undoAll_alike (h : s.AgreesOn g t) (cs : List Change) (d : Session) :
    ∃ r s' t' d', undoAll g drop cs s d = (r, s', d') ∧ undoAll g drop cs t d = (r, t', d') ∧
      s'.AgreesOn g t' := by
  induction cs generalizing s t d with
  | nil => exact ⟨_, _, _, _, rfl, rfl, h⟩
  | cons c rest ih =>
    obtain ⟨r, s₁, t₁, d₁, hs, ht, h₁⟩ := Change.undo_alike drop h c d
    obtain ⟨r', s₂, t₂, d₂, hs', ht', h₂⟩ := ih h₁ d₁
    exact ⟨firstFailure r r', s₂, t₂, d₂, by simp only [undoAll, hs, hs'],
      by simp only [undoAll, ht, ht'], h₂⟩

theorem UndoLog.undoAll_onlyOn (cs : List Change) (s : Store) (d : Session) :
    s.OnlyOn g (undoAll g drop cs s d).2.1 := by
  induction cs generalizing s d with
  | nil => exact Std.Refl.refl s
  | cons c rest ih => exact Trans.trans (Change.undo_onlyOn drop c d) (ih _ _)

end Undo

namespace Noted

variable {α : Type} {g : GameId}

/-- The same of the worlds that transactions work on, which have noted the same as well. -/
abbrev AgreesOn (g : GameId) (s t : World × List Change) : Prop := s.1.AgreesOn g t.1 ∧ s.2 = t.2

abbrev OnlyOn (g : GameId) (s t : World × List Change) : Prop := s.1.OnlyOn g t.1

instance : Std.Refl (OnlyOn g) := ⟨fun s => Std.Refl.refl (r := World.OnlyOn g) s.1⟩

instance : Trans (OnlyOn g) (OnlyOn g) (OnlyOn g) := ⟨fun {s _ u} h h' =>
  (Trans.trans h h' : World.OnlyOn g s.1 u.1)⟩

abbrev Apart (g : GameId) (x : Noted α) : Prop := Confined (AgreesOn g) (OnlyOn g) x

theorem ofEngine_apart {x : Engine α} (h : Engine.Apart g x) : Apart g (ofEngine x) where
  alike := fun (w, noted) (v, noted') ⟨hwv, hnoted⟩ => by
    obtain ⟨hr, hafter⟩ := h.alike w v hwv
    exact ⟨hr, hafter, hnoted⟩
  within := fun (w, noted) => h.within w

theorem note_apart (c : Change) : Apart g (note c) :=
  .change (fun _ _ h => ⟨h.1, congrArg (c :: ·) h.2⟩) fun s => Std.Refl.refl (r := World.OnlyOn g) s.1

theorem gameId_bind {f : GameId → Noted α} (h : Apart g (f g)) :
    Apart g ((Engine.gameId : Noted GameId) >>= f) where
  alike s t hst := by
    show (f s.1.session.game s).1 = (f t.1.session.game t).1 ∧
      AgreesOn g (f s.1.session.game s).2 (f t.1.session.game t).2
    rw [← hst.1.session, hst.1.game]
    exact h.alike s t hst
  within s := by
    constructor <;> intro hg
    · exact (show (f s.1.session.game s).2.1.session.game = g by
        rw [hg]; exact (h.within s).game hg)
    · exact (show s.1.store.OnlyOn g (f s.1.session.game s).2.1.store by
        rw [hg]; exact (h.within s).store hg)

end Noted

/-- A session stays on its game, whichever way it drops subscriptions. -/
theorem sameGame_of_own {drop : Dropping Session} (h : drop = keepAll ∨ drop = Session.dropCard)
    (card : CardId) (s : Session) : Session.SameGame s (drop card s).2 := by
  rcases h with rfl | rfl <;> rfl

theorem transact_apart {α : Type} {g : GameId} {drop : Dropping Session} {steps : Noted α}
    (hdrop : ∀ card d, Session.SameGame d (drop card d).2) (h : Noted.Apart g steps) :
    Engine.Apart g (transact drop steps) where
  alike w v hwv := by
    obtain ⟨r, ⟨w', noted⟩, ⟨v', _⟩, hw, hv, hafter, rfl⟩ := h.runs (s := (w, [])) (t := (v, [])) ⟨hwv, rfl⟩
    have hafter : World.AgreesOn g w' v' := hafter
    unfold transact
    rw [hw, hv]
    rcases r with stop | a
    · cases stop with
      | refused e restored =>
        obtain ⟨r, s, t, d, hs, ht, hst⟩ := UndoLog.undoAll_alike drop hafter.store noted w'.session
        have hd : Session.SameGame w'.session d := by
          have := UndoLog.undoAll_keeper (g := g) hdrop noted w'.store w'.session
          rwa [hs] at this
        simp only [UndoLog.rewind, ← hafter.session, hafter.game, hs, ht, true_and]
        exact ⟨rfl, hd.trans hafter.game, hst⟩
      | brokenRange | tooDeep => exact ⟨rfl, hafter⟩
    · exact ⟨rfl, hafter⟩
  within w := by
    have hsteps := h.within (w, [])
    unfold transact
    rcases hs : steps (w, []) with ⟨stop | a, u, noted⟩ <;> rw [hs] at hsteps
    · cases stop with
      | refused e restored =>
        refine ⟨fun hg => ?_, fun hg => ?_⟩
        · exact (UndoLog.undoAll_keeper (R := Session.SameGame) hdrop noted u.store u.session).trans
            (hsteps.game hg)
        · have hundo := UndoLog.undoAll_onlyOn (g := g) drop noted u.store u.session
          rw [show UndoLog.undoAll g = UndoLog.undoAll u.session.game by rw [hsteps.game hg]] at hundo
          exact Trans.trans (hsteps.store hg) hundo
      | brokenRange | tooDeep => exact hsteps
    · exact hsteps

end MarsRules
