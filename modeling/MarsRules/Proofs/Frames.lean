import MarsRules.Proofs.Upkeep

/-! What every write but that of a board keeps is kept by whatever is asked of a session
(`Ask.reply_over`). The write of a board is apart: a placement ends with it, and one that does not
succeed has not come to it. -/

namespace MarsRules

open Steps (Keeps StopsOnly)

/-- Where the steps stop, `R` relates the state before to the state they stopped in. -/
def Steps.StopsWithin {ε σ α : Type} (R : σ → σ → Prop) (x : Steps ε σ α) : Prop :=
  ∀ s e t, x s = (.error e, t) → R s t

namespace Steps

variable {ε σ α β : Type} {R : σ → σ → Prop} {x : Steps ε σ α} {f : α → Steps ε σ β}

theorem Keeps.stopsWithin (h : Keeps R x) : StopsWithin R x := fun _ _ _ hx => h.apply hx

theorem StopsWithin.after [Trans R R R] (hx : Keeps R x) (hf : ∀ a, StopsWithin R (f a)) :
    StopsWithin R (x >>= f) := by
  intro s e t h
  rcases bind_eq_error.mp h with h | ⟨a, u, hu, h⟩
  · exact hx.apply h
  · exact Trans.trans (hx.apply hu) (hf a u e t h)

/-- What cannot stop may follow. -/
theorem StopsWithin.before (hx : StopsWithin R x) (hf : ∀ a, StopsOnly (fun _ => False) (f a)) :
    StopsWithin R (x >>= f) := by
  intro s e t h
  rcases bind_eq_error.mp h with h | ⟨a, u, -, h⟩
  · exact hx s e t h
  · exact (hf a u e t h).elim

end Steps

open Steps (StopsWithin)

/-- A relation that chains, and that every write of a player, a parameter or a turn keeps, as every draw
from a deck does. -/
class Store.Frame (R : Store → Store → Prop) : Prop where
  trans : ∀ {s t u}, R s t → R t u → R s u
  alike : ∀ {s t}, Alike s t → R s t
  player : ∀ (s : Store) g p f,
    R s { s with rosters := s.rosters.put g (changeFirst (·.id == p) f (s.roster g)) }
  game : ∀ {s : Store} {g game} (f : GameField), s.game? g = some game →
    R s { s with games := s.games.put g (f.put game) }
  deck : ∀ {s : Store} {g deck} (n : Nat), s.decks.get? g = some deck → R s (s.setDeck g (deck.drop n))

/-- The relation of the stores of two worlds. -/
def World.Over (R : Store → Store → Prop) (w v : World) : Prop := R w.store v.store

/-- The same of the worlds that a transaction works on. -/
def Noted.Over (R : Store → Store → Prop) (s t : World × List Change) : Prop := R s.1.store t.1.store

section Frame

variable {α : Type} {R : Store → Store → Prop}

theorem Engine.onStore_over {x : StoreSteps α} (h : Keeps R x) : Keeps (World.Over R) (onStore x) := by
  intro w
  have hx := h w.store
  unfold onStore
  rcases hs : x w.store with ⟨_ | _, _⟩ <;> rw [hs] at hx <;> exact hx

theorem Noted.ofEngine_over {x : Engine α} (h : Keeps (World.Over R) x) : Keeps (Over R) (ofEngine x) :=
  fun (w, _) => h w

theorem Engine.onStore_stopsWithin {x : StoreSteps α} (h : StopsWithin R x) :
    StopsWithin (World.Over R) (onStore x) := by
  intro w stop v hx
  obtain ⟨e, s, hs, -, rfl⟩ := onStore_eq_error.mp hx
  exact h w.store e s hs

theorem Noted.ofEngine_stopsWithin {x : Engine α} (h : StopsWithin (World.Over R) x) :
    StopsWithin (Over R) (ofEngine x) := by
  rintro ⟨w, noted⟩ stop t hx
  obtain ⟨v, hv, rfl⟩ := ofEngine_eq.mp hx
  exact h w stop v hv

variable [Store.Frame R]

instance : Std.Refl R := ⟨fun s => Store.Frame.alike (Std.Refl.refl s)⟩

instance : Trans R R R := ⟨Store.Frame.trans⟩

instance : Std.Refl (World.Over R) := ⟨fun w => Std.Refl.refl (r := R) w.store⟩

instance : Trans (World.Over R) (World.Over R) (World.Over R) :=
  ⟨fun {w _ v} h h' => (Trans.trans h h' : R w.store v.store)⟩

instance : Std.Refl (Noted.Over R) := ⟨fun s => Std.Refl.refl (r := R) s.1.store⟩

instance : Trans (Noted.Over R) (Noted.Over R) (Noted.Over R) :=
  ⟨fun {s _ t} h h' => (Trans.trans h h' : R s.1.store t.1.store)⟩

namespace Store

theorem perform_over (c : Call) : Keeps R (perform c) := fun s => Store.Frame.alike (perform_alike c s)

theorem changePlayer_over (g : GameId) (p : PlayerId) (f : Player → Player) :
    Keeps R (changePlayer g p f) :=
  Keeps.bind (fun s => Store.Frame.alike (thePlayer_alike g p s)) fun _ s => Store.Frame.player s g p f

theorem updatePlayer_over (g : GameId) (p : PlayerId) (f : PlayerField) :
    Keeps R (updatePlayer g p f) := (perform_over _).bind fun _ => changePlayer_over g p _

theorem updateGame_over (g : GameId) (f : GameField) : Keeps R (updateGame g f) := by
  refine (perform_over _).bind fun _ => ?_
  refine Keeps.bind_of (fun s => Store.Frame.alike (theGame_alike g s)) fun s game t h => ?_
  obtain ⟨hgame, rfl⟩ := theGame_eq_ok.mp h
  exact Store.Frame.game f hgame

theorem addTiles_over (g : GameId) (p : PlayerId) (source : String) (tiles : List TileKind) :
    Keeps R (addTiles g p source tiles) := by
  refine (perform_over _).bind fun _ => ?_
  split
  · exact Keeps.pure _
  · exact changePlayer_over g p _

theorem drawCards_over (g : GameId) (n : Nat) : Keeps R (drawCards g n) := by
  refine (perform_over _).bind fun _ => Keeps.bind_of Keeps.read fun s _ t h => ?_
  cases h
  rcases hdeck : s.decks.get? g with _ | deck
  · exact Keeps.stop _ s
  · exact Store.Frame.deck n hdeck

/-- Where a tile is not put down, nothing is. -/
theorem placeTile_stopsWithin (g : GameId) (c : Coord) (tile : TileKind) (owner : Option PlayerId) :
    StopsWithin R (placeTile g c tile owner) := by
  have hgame : Keeps R (theGame g) := fun s => Frame.alike (theGame_alike g s)
  refine .after (perform_over _) fun _ => .after hgame fun game => ?_
  refine .after (Keeps.ofExcept _) fun placed => ?_
  exact (hgame.stopsWithin.before fun _ => StopsOnly.change _).before fun _ => StopsOnly.pure _

end Store

namespace Engine

theorem alike_over {x : Engine α} (h : Keeps World.Alike x) : Keeps (World.Over R) x :=
  fun w => Store.Frame.alike (h w).store

theorem changeSession_over (f : Session → Session) : Keeps (World.Over R) (changeSession f) :=
  fun w => Std.Refl.refl (r := R) w.store

theorem update_over (p : PlayerId) (f : PlayerField) : Keeps (World.Over R) (update p f) :=
  (alike_over gameId_alike).bind fun g => onStore_over (Store.updatePlayer_over g p f)

theorem updateGame_over (f : GameField) : Keeps (World.Over R) (updateGame f) :=
  (alike_over gameId_alike).bind fun g => onStore_over (Store.updateGame_over g f)

end Engine

namespace Noted

theorem note_over (c : Change) : Keeps (Over R) (note c) := fun s => Std.Refl.refl (r := R) s.1.store

theorem overwrite_over (player : Player) (f : PlayerField) : Keeps (Over R) (overwrite player f) :=
  (note_over _).bind fun _ => ofEngine_over (Engine.update_over _ _)

end Noted

section Undo

variable (drop : Dropping Session) (g : GameId)

theorem Change.undo_over (c : Change) (s : Store) (d : Session) : R s (c.undo g drop s d).2.1 := by
  cases c with
  | player p f => exact Store.updatePlayer_over g p f s
  | tiles p queue offer =>
    exact ((Store.updatePlayer_over g p _).bind fun _ => Store.updatePlayer_over g p _) s
  | subscribed => exact Std.Refl.refl s
  | parameter q n => exact Store.updateGame_over g _ s

theorem UndoLog.undoAll_over (cs : List Change) (s : Store) (d : Session) :
    R s (undoAll g drop cs s d).2.1 := by
  induction cs generalizing s d with
  | nil => exact Std.Refl.refl s
  | cons c rest ih => exact Store.Frame.trans (Change.undo_over drop g c s d) (ih _ _)

end Undo

/-- Whatever was noted, putting it back keeps the relation, whether it works or not. -/
theorem transact_stopsWithin (drop : Dropping Session) {steps : Noted α}
    (h : StopsWithin (Noted.Over R) steps) : StopsWithin (World.Over R) (transact drop steps) := by
  intro w stop v hx
  show R w.store v.store
  unfold transact at hx
  rcases hs : steps (w, []) with ⟨stop' | a, u, noted⟩ <;> rw [hs] at hx
  · have hsteps : R w.store u.store := h _ _ _ hs
    cases stop' with
    | refused e restored =>
      obtain rfl : _ = v := (Prod.ext_iff.mp hx).2
      exact Store.Frame.trans hsteps (UndoLog.undoAll_over drop _ noted u.store u.session)
    | brokenRange | tooDeep =>
      cases hx
      exact hsteps
  · cases hx

theorem transact_over (drop : Dropping Session) {steps : Noted α} (h : Keeps (Noted.Over R) steps) :
    Keeps (World.Over R) (transact drop steps) := by
  intro w
  rcases hx : transact drop steps w with ⟨stop | a, v⟩
  · exact transact_stopsWithin drop h.stopsWithin w stop v hx
  · obtain ⟨noted, hs⟩ := transact_ok hx
    exact h.apply hs

theorem Plan.writeDraw_over (plan : Plan) (player : Player) :
    Keeps (Noted.Over R) (plan.writeDraw player) :=
  Keeps.when ((Noted.ofEngine_over (Engine.alike_over Engine.gameId_alike)).bind fun g =>
    (Noted.ofEngine_over (Engine.onStore_over (Store.drawCards_over g _))).bind fun _ =>
      Noted.overwrite_over _ _) _

/-- What writes of records keep is kept by all that a session does but placing tiles. -/
def Store.Frame.upkeep (R : Store → Store → Prop) [Store.Frame R] : Upkeep where
  world := World.Over R
  noted := Noted.Over R
  trans h h' := Trans.trans h h'
  noted_trans h h' := Trans.trans h h'
  alike h := Store.Frame.alike h.store
  changeSession _ := Engine.changeSession_over _
  update p _ _ := Engine.update_over p _
  updateGame := Engine.updateGame_over
  addTiles g p source tiles := Engine.onStore_over (Store.addTiles_over g p source tiles)
  ofEngine := Noted.ofEngine_over
  note _ := Noted.note_over _
  transact _ := transact_over _
  offerCards p n _ :=
    (Engine.alike_over Engine.gameId_alike).bind fun g =>
      (Engine.onStore_over (Store.drawCards_over g n)).bind fun _ => Engine.update_over p _
  writeDraw plan hx :=
    (Noted.ofEngine_over (Engine.alike_over (Engine.readPlayer_alike _))).bind fun player =>
      Keeps.bind (hx player) fun _ => (plan.writeDraw_over player).bind fun _ => Keeps.pure _

namespace Engine

open Store.Frame (upkeep)

theorem announce_over (book : Rulebook) (events : List Event) :
    Keeps (World.Over R) (announce book events) := ((upkeep R).law book.rules).announce events

/-- A placement that stops has not written the board. -/
theorem commitPlacement_stopsWithin (p : PlayerId) (rules : Rules) (c : Coord) :
    StopsWithin (World.Over R) (commitPlacement rules p c) := by
  refine .after (alike_over (readPlayer_alike p)) fun player => ?_
  refine .after (alike_over (ofExcept_alike _)) fun offer => ?_
  refine .after (alike_over readGame_alike) fun game => ?_
  refine StopsWithin.before (transact_stopsWithin _ ?_) fun _ =>
    gameId_stops.bind fun _ => StopsOnly.pure _
  rw [writePlacement_eq]
  refine .after (((upkeep R).law rules).writeReward player offer _) fun changes => ?_
  refine StopsWithin.before ?_ fun _ => StopsOnly.pure _
  refine .after (Noted.ofEngine_over (alike_over readGame_alike)) fun game => ?_
  refine .after (Noted.ofEngine_over (alike_over (ofExcept_alike _))) fun placed => ?_
  refine .after (Noted.ofEngine_over (((upkeep R).law rules).offerNext _ _)) fun _ => ?_
  refine .after (Noted.ofEngine_over (alike_over gameId_alike)) fun g => ?_
  refine StopsWithin.before ?_ fun _ => StopsOnly.pure _
  exact Noted.ofEngine_stopsWithin (onStore_stopsWithin (Store.placeTile_stopsWithin g _ _ _))

end Engine

/-- The player and the hex of a placement. -/
def Ask.placement? : Ask → Option (PlayerId × Coord)
  | request (.call (.act p (.place c))) => some (p, c)
  | _ => none

/-- Whatever is asked, except for a placement. -/
theorem Ask.reply_over (book : Rulebook) {a : Ask} (h : a.placement? = none) :
    Keeps (World.Over R) (a.reply book) := by
  refine (Store.Frame.upkeep R).reply book fun p c ha => ?_
  subst ha
  cases h

end Frame

end MarsRules
