import MarsRules.Proofs.Bystanders
import MarsRules.Proofs.Interleaving

/-! That a session has been closed is written down, and read by nothing but closing it again: whatever
else is asked of the session is answered, and done, as if it were open (`Ask.reply_heedless`). -/

namespace MarsRules

namespace Steps

variable {ε σ α β : Type} {f : σ → σ} {x : Steps ε σ α} {h : α → Steps ε σ β}

/-- The same comes of it whether the state is changed like this before the steps or after them. -/
def Heedless (f : σ → σ) (x : Steps ε σ α) : Prop := ∀ s, x (f s) = ((x s).1, f (x s).2)

namespace Heedless

theorem pure (a : α) : Heedless f (Pure.pure a : Steps ε σ α) := fun _ => rfl

theorem stop (e : ε) : Heedless f (Steps.stop e : Steps ε σ α) := fun _ => rfl

theorem change {g : σ → σ} (hg : ∀ s, g (f s) = f (g s)) :
    Heedless f (Steps.change g : Steps ε σ Unit) := fun s => by rw [change_apply, change_apply, hg]

theorem bind (hx : Heedless f x) (hh : ∀ a, Heedless f (h a)) : Heedless f (x >>= h) := by
  intro s
  have hs := hx s
  rw [bind_apply, bind_apply, hs]
  rcases x s with ⟨_ | a, t⟩
  · rfl
  · exact hh a t

end Heedless

end Steps

open Steps (Heedless)

/-- The session, marked as closed or not. -/
def Session.marked (b : Bool) (s : Session) : Session := { s with closed := b }

def World.marked (b : Bool) (w : World) : World := { w with session := w.session.marked b }

theorem Session.subscribe_marked (s : Session) (b : Bool) (owner : PlayerId) (e : CardEffect) :
    (s.marked b).subscribe owner e =
      ((s.subscribe owner e).1, (s.subscribe owner e).2.marked b) := by
  unfold subscribe
  cases e.eventKind? <;> rfl

/-- The mark makes no difference to the answer, and stays. -/
theorem Steps.Heedless.run {α : Type} {x : Engine α} {w v : World} {r : Except Stop α}
    (hx : ∀ b, Heedless (World.marked b) x) (h : x w = (r, v)) :
    v.session.closed = w.session.closed ∧ ∀ b, x (w.marked b) = (r, v.marked b) := by
  have hmarked (b : Bool) : x (w.marked b) = (r, v.marked b) := by rw [hx b w, h]
  have hv : v = v.marked w.session.closed := (Prod.ext_iff.mp (h.symm.trans (hmarked w.session.closed))).2
  exact ⟨congrArg (·.session.closed) hv, hmarked⟩

variable {b : Bool}

namespace Engine

variable {α : Type} {p : PlayerId}

theorem Blind.heedless {x : Engine α} (hx : Blind x) : Heedless (World.marked b) x := by
  intro w
  obtain ⟨r, v, u, hw, hu, hstore, -⟩ := hx.runs (show World.Tied w (w.marked b) from ⟨rfl, rfl⟩)
  have hv : v.session = w.session := hx.within.apply hw
  have hmarked : u.session = w.session.marked b := hx.within.apply hu
  rw [hw, hu]
  show (r, u) = (r, ⟨v.store, v.session.marked b⟩)
  rw [hv, hstore, ← hmarked]

theorem gameId_heedless : Heedless (World.marked b) gameId := fun _ => rfl

theorem onStore_heedless (x : StoreSteps α) : Heedless (World.marked b) (onStore x) :=
  (onStore_blind x).heedless

theorem update_heedless (f : PlayerField) : Heedless (World.marked b) (update p f) :=
  (update_blind f).heedless

theorem updateGame_heedless (f : GameField) : Heedless (World.marked b) (updateGame f) :=
  gameId_heedless.bind fun _ => onStore_heedless _

theorem changeSession_heedless {f : Session → Session} (hf : ∀ s, f (s.marked b) = (f s).marked b) :
    Heedless (World.marked b) (changeSession f) :=
  .change fun w => congrArg (World.mk w.store) (hf w.session)

/-- The subscriptions are looked at, and not the mark. -/
theorem session_heedless {f : Session → Engine α} (hb : ∀ s, f (s.marked b) = f s)
    (hf : ∀ s, Heedless (World.marked b) (f s)) : Heedless (World.marked b) (session >>= f) := by
  intro w
  show f (w.session.marked b) (w.marked b) = _
  rw [hb]
  exact hf w.session w

theorem outcome_heedless {x : Engine α} (hx : Heedless (World.marked b) x) :
    Heedless (World.marked b) (outcome x) := by
  intro w
  unfold outcome
  rw [hx w]
  rcases x w with ⟨stop | a, v⟩
  · cases stop <;> rfl
  · rfl

theorem orElse_heedless {x : Engine α} {putBack : Engine Unit} (hx : Heedless (World.marked b) x)
    (hback : Heedless (World.marked b) putBack) : Heedless (World.marked b) (x.orElse putBack) := by
  intro w
  unfold orElse
  rw [hx w]
  rcases x w with ⟨stop | a, v⟩
  · cases stop with
    | refused e restored =>
      dsimp only
      rw [hback v]
      rcases putBack v with ⟨stop | _, u⟩
      · cases stop <;> rfl
      · rfl
    | brokenRange | tooDeep => rfl
  · rfl

end Engine

theorem UndoLog.undoAll_marked {g : GameId} {drop : Dropping Session}
    (hdrop : ∀ card s, drop card (s.marked b) = ((drop card s).1, (drop card s).2.marked b))
    (cs : List Change) (s : Store) (d : Session) : undoAll g drop cs s (d.marked b) =
      ((undoAll g drop cs s d).1, (undoAll g drop cs s d).2.1, (undoAll g drop cs s d).2.2.marked b) := by
  induction cs generalizing s d with
  | nil => rfl
  | cons c rest ih =>
    cases c with
    | player | tiles | parameter => simp only [undoAll, Change.undo, ih]
    | subscribed card => simp only [undoAll, Change.undo, hdrop, ih]

namespace Noted

variable {α : Type}

abbrev Heedless (b : Bool) (x : Noted α) : Prop := Steps.Heedless (Prod.map (World.marked b) id) x

theorem ofEngine_heedless {x : Engine α} (hx : Steps.Heedless (World.marked b) x) :
    Heedless b (ofEngine x) := fun (w, noted) => by
  rw [Prod.map_apply, ofEngine_apply, ofEngine_apply, hx w]
  rfl

theorem note_heedless (c : Change) : Heedless b (note c) := .change fun _ => rfl

end Noted

theorem transact_heedless {α : Type} {drop : Dropping Session} {steps : Noted α}
    (hdrop : ∀ card s, drop card (s.marked b) = ((drop card s).1, (drop card s).2.marked b))
    (hsteps : Noted.Heedless b steps) : Heedless (World.marked b) (transact drop steps) := by
  intro w
  have hw : steps (w.marked b, []) = _ := hsteps (w, [])
  unfold transact
  rw [hw]
  rcases steps (w, []) with ⟨stop | a, u, noted⟩
  · cases stop with
    | refused e restored =>
      have hundo := UndoLog.undoAll_marked (g := u.session.game) hdrop noted u.store u.session
      simp only [UndoLog.rewind, Prod.map_apply, World.marked, id]
      rw [show (u.session.marked b).game = u.session.game from rfl, hundo]
    | brokenRange | tooDeep => rfl
  · rfl

theorem Session.subscribeCard_marked (s : Session) (p : PlayerId) (card : Card) :
    (s.marked b).subscribeCard p card =
      ((s.subscribeCard p card).1, (s.subscribeCard p card).2.marked b) := by
  unfold subscribeCard
  generalize card.behaviors.zipIdx.filter (·.1.shape == .passive) = behaviors
  generalize 0 = n
  induction behaviors generalizing s n with
  | nil => rfl
  | cons x rest ih =>
    simp only [List.foldl_cons, subscribe_marked]
    rcases s.subscribe p { card := card.id, name := card.name, index := x.2, behavior := x.1 }
      with ⟨_ | _, t⟩
    · exact ih t n
    · exact ih t (n + 1)

/-- What is written pays no heed to the mark. -/
def Engine.heedlessWriteLaw (b : Bool) (rules : Rules) : WriteLaw rules where
  holds := Heedless (World.marked b)
  plays _ := True
  pure := .pure
  bind := .bind
  gameId h := gameId_heedless.bind fun g => h g trivial
  ofExcept y := (ofExcept_blind y).heedless
  readGame := blindLaw.readGame.heedless
  readPlayer p := (blindLaw.readPlayer p).heedless
  findCard catalog id := (blindLaw.findCard catalog id).heedless
  noted := Noted.Heedless b
  noted_pure := .pure
  noted_bind := .bind
  noted_gameId h := (Noted.ofEngine_heedless gameId_heedless).bind fun g => h g trivial
  ofEngine := Noted.ofEngine_heedless
  note _ := Noted.note_heedless _
  brokenRange _ := .stop _
  update _ f _ := update_heedless f
  updateGame := updateGame_heedless
  addTiles _ _ _ _ := onStore_heedless _
  subscribe owner e := changeSession_heedless fun s => by rw [s.subscribe_marked]
  transact hdrop := transact_heedless fun _ _ => by rcases hdrop with rfl | rfl <;> rfl

/-- Nor does anything else that a session does, but for closing it. -/
def Engine.heedlessLaw (b : Bool) (rules : Rules) : SessionLaw rules where
  toPlanLaw := (heedlessWriteLaw b rules).withDraws (fun _ => update_heedless) Noted.note_heedless
    (fun _ _ => onStore_heedless _) fun _ => changeSession_heedless fun _ => rfl
  listeners _ _ h := session_heedless (fun _ => rfl) fun _ => h _
  isLive _ := session_heedless (fun _ => rfl) fun _ => .pure _
  outcome := outcome_heedless
  tooDeep := .stop _
  orElse := orElse_heedless
  readRoster _ := onStore_heedless _
  subscribeCard p card _ := session_heedless (fun s => by rw [s.subscribeCard_marked]) fun _ =>
    (changeSession_heedless fun s => by rw [s.subscribeCard_marked]).bind fun _ => .pure _
  unsubscribe _ := changeSession_heedless fun _ => rfl

/-- What is asked of a closed session is answered as by an open one, and the same is done. -/
theorem Ask.reply_heedless (book : Rulebook) {a : Ask} (ha : a ≠ .request (.call .shutdown)) :
    Heedless (World.marked b) (a.reply book) := by
  let L := Engine.heedlessLaw b book.rules
  exact L.reply (fun p c _ => L.place p fun _ _ _ => Engine.onStore_heedless _) fun h => absurd h ha

end MarsRules
