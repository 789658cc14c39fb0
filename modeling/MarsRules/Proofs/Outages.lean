import MarsRules.Proofs.Moves
import MarsRules.Session.Basic

/-! What calls leave behind besides the records. Outages only pass, so that a call which cannot fail
will not come to fail, and cards leave a deck only where some are drawn. -/

namespace MarsRules

open Steps (Keeps)

/-- Not all failures that are ordered for the call are over. -/
def Store.MayFail (s : Store) (c : Call) : Prop := ∃ o ∈ s.outages c, o.times ≠ 0

/-- No outages come up, and the decks stay unless cards are drawn. -/
structure Store.Spends (drawing : Prop) (s t : Store) : Prop where
  outages : ∀ c, t.MayFail c → s.MayFail c
  decks : ¬ drawing → t.decks = s.decks

theorem Outage.next_mayFail {os : List Outage} :
    ((next os).1 = false → ∃ o ∈ os, o.times ≠ 0) ∧
      ((∃ o ∈ (next os).2, o.times ≠ 0) → ∃ o ∈ os, o.times ≠ 0) := by
  induction os with
  | nil => simp [next]
  | cons o rest ih =>
    obtain ⟨skip, times⟩ := o
    cases skip with
    | succ skip => simp [next]
    | zero =>
      cases times with
      | succ times => simp [next]
      | zero => simpa [next] using ih

namespace Store

variable {drawing : Prop}

theorem Spends.refl (s : Store) : Spends drawing s s := ⟨fun _ h => h, fun _ => rfl⟩

theorem Spends.trans {s t u : Store} (h : Spends drawing s t) (h' : Spends drawing t u) :
    Spends drawing s u :=
  ⟨fun c hc => h.outages c (h'.outages c hc), fun hd => (h'.decks hd).trans (h.decks hd)⟩

instance : Std.Refl (Spends drawing) := ⟨.refl⟩

instance : Trans (Spends drawing) (Spends drawing) (Spends drawing) := ⟨.trans⟩

theorem Spends.mono {drawing' : Prop} {s t : Store} (h : Spends drawing s t)
    (hd : drawing → drawing') : Spends drawing' s t := ⟨h.outages, fun hn => h.decks (hn ∘ hd)⟩

/-- What touches neither outages nor decks. -/
theorem Spends.of_eq {s t : Store} (ho : t.outages = s.outages) (hd : t.decks = s.decks) :
    Spends drawing s t := ⟨fun c h => by rwa [MayFail, ho] at h, fun _ => hd⟩

theorem mayFail_breakDown {s : Store} {c d : Call} {os : List Outage} :
    (s.breakDown c os).MayFail d ↔ if d = c then ∃ o ∈ os, o.times ≠ 0 else s.MayFail d := by
  unfold MayFail breakDown
  split
  · next h => simp [h]
  · next h => simp [h]

theorem call_spends (s : Store) (c : Call) :
    ((s.call c).1 = false → s.MayFail c) ∧ Spends drawing s (s.call c).2 := by
  unfold call
  split
  · exact ⟨nofun, Std.Refl.refl s⟩
  · obtain ⟨hfail, hleft⟩ := @Outage.next_mayFail (s.outages c)
    refine ⟨hfail, fun d hd => ?_, fun _ => rfl⟩
    rw [mayFail_breakDown] at hd
    split at hd
    · next h => exact h ▸ hleft hd
    · exact hd

theorem perform_spends (c : Call) : Keeps (Spends drawing) (perform c) := by
  intro s
  have h : Spends drawing s (s.call c).2 := (call_spends s c).2
  unfold perform
  rcases hc : s.call c with ⟨_ | _, t⟩ <;> rwa [hc] at h

/-- A call that does not get through was one that could fail. -/
theorem perform_error {c : Call} {s t : Store} {e : Refusal} (h : perform c s = (.error e, t)) :
    s.MayFail c := by
  refine (@call_spends False s c).1 ?_
  unfold perform at h
  rcases hc : s.call c with ⟨_ | _, u⟩
  · rfl
  · simp [hc] at h

theorem thePlayer_spends (g : GameId) (p : PlayerId) : Keeps (Spends drawing) (thePlayer g p) := by
  intro s
  rw [thePlayer_snd]
  exact Std.Refl.refl s

theorem theGame_spends (g : GameId) : Keeps (Spends drawing) (theGame g) := by
  intro s
  rw [theGame_snd]
  exact Std.Refl.refl s

theorem changePlayer_spends (g : GameId) (p : PlayerId) (f : Player → Player) :
    Keeps (Spends drawing) (changePlayer g p f) :=
  (thePlayer_spends g p).bind fun _ _ => .of_eq rfl rfl

theorem changeGame_spends (g : GameId) (f : Game → Game) :
    Keeps (Spends drawing) (changeGame g f) := (theGame_spends g).bind fun _ _ => .of_eq rfl rfl

theorem updatePlayer_spends (g : GameId) (p : PlayerId) (f : PlayerField) :
    Keeps (Spends drawing) (updatePlayer g p f) :=
  (perform_spends _).bind fun _ => changePlayer_spends g p f.put

theorem updateGame_spends (g : GameId) (f : GameField) : Keeps (Spends drawing) (updateGame g f) :=
  (perform_spends _).bind fun _ => changeGame_spends g f.put

theorem readRoster_spends (g : GameId) : Keeps (Spends drawing) (readRoster g) :=
  (perform_spends _).bind fun _ => Keeps.read.bind fun _ => Keeps.pure _

theorem addTiles_spends (g : GameId) (p : PlayerId) (source : String) (tiles : List TileKind) :
    Keeps (Spends drawing) (addTiles g p source tiles) := by
  refine (perform_spends _).bind fun _ => ?_
  split
  · exact Keeps.pure _
  · exact changePlayer_spends g p _

theorem placeTile_spends (g : GameId) (c : Coord) (tile : TileKind) (owner : Option PlayerId) :
    Keeps (Spends drawing) (placeTile g c tile owner) :=
  (perform_spends _).bind fun _ => (theGame_spends g).bind fun _ => (Keeps.ofExcept _).bind fun _ =>
    (changeGame_spends g _).bind fun _ => Keeps.pure _

theorem drawCards_spends (g : GameId) (n : Nat) (hd : drawing) :
    Keeps (Spends drawing) (drawCards g n) := by
  refine (perform_spends _).bind fun _ => Keeps.read.bind fun s => ?_
  cases s.decks.get? g with
  | none => exact Keeps.stop _
  | some cards => exact Keeps.bind (fun t => ⟨fun _ h => h, fun h => absurd hd h⟩) fun _ => Keeps.pure _

/-- Cards that could not be drawn are still in the deck. -/
theorem drawCards_error {g : GameId} {n : Nat} {s t : Store} {e : Refusal}
    (h : drawCards g n s = (.error e, t)) : Spends False s t := by
  rcases Steps.bind_eq_error.mp h with h | ⟨_, u, hu, h⟩
  · exact (perform_spends _).apply h
  have hs : Spends False s u := (perform_spends _).apply hu
  rcases Steps.bind_eq_error.mp h with h | ⟨v, _, hv, h⟩
  · cases h
  cases hv
  cases hd : u.decks.get? g with
  | none =>
    simp only [hd] at h
    cases h
    exact hs
  | some cards =>
    simp only [hd] at h
    cases h

end Store

/-- The same of the worlds that hold the stores. -/
abbrev World.Spends (drawing : Prop) (w v : World) : Prop := w.store.Spends drawing v.store

instance {drawing : Prop} : Std.Refl (World.Spends drawing) := ⟨fun _ => .refl _⟩

instance {drawing : Prop} : Trans (World.Spends drawing) (World.Spends drawing) (World.Spends drawing) :=
  ⟨Store.Spends.trans⟩

/-- The same of the worlds that a transaction works on. -/
abbrev Noted.Spends (drawing : Prop) (s t : World × List Change) : Prop := s.1.Spends drawing t.1

instance {drawing : Prop} : Std.Refl (Noted.Spends drawing) := ⟨fun _ => .refl _⟩

instance {drawing : Prop} : Trans (Noted.Spends drawing) (Noted.Spends drawing) (Noted.Spends drawing) :=
  ⟨Store.Spends.trans⟩

section Spends

variable {drawing : Prop} {α : Type}

namespace Engine

theorem onStore_spends {x : StoreSteps α} (h : Keeps (Store.Spends drawing) x) :
    Keeps (World.Spends drawing) (onStore x) := by
  intro w
  have hs := h w.store
  unfold onStore
  rcases hx : x w.store with ⟨_ | _, t⟩ <;> rw [hx] at hs <;> exact hs

theorem gameId_spends : Keeps (World.Spends drawing) gameId := fun _ => .refl _

theorem ofExcept_spends (y : Except Refusal α) : Keeps (World.Spends drawing) (ofExcept y) := by
  cases y
  · exact Keeps.stop _
  · exact Keeps.pure _

theorem readPlayer_spends (p : PlayerId) : Keeps (World.Spends drawing) (readPlayer p) :=
  gameId_spends.bind fun g =>
    onStore_spends ((Store.perform_spends _).bind fun _ => Store.thePlayer_spends g p)

theorem readGame_spends : Keeps (World.Spends drawing) readGame :=
  gameId_spends.bind fun g =>
    onStore_spends ((Store.perform_spends _).bind fun _ => Store.theGame_spends g)

theorem findCard_spends (cat : Catalog) (id : CardId) :
    Keeps (World.Spends drawing) (findCard cat id) :=
  (onStore_spends (Store.perform_spends _)).bind fun _ => ofExcept_spends _

theorem update_spends (p : PlayerId) (f : PlayerField) : Keeps (World.Spends drawing) (update p f) :=
  gameId_spends.bind fun g => onStore_spends (Store.updatePlayer_spends g p f)

theorem updateGame_spends (f : GameField) : Keeps (World.Spends drawing) (updateGame f) :=
  gameId_spends.bind fun g => onStore_spends (Store.updateGame_spends g f)

theorem drawCards_spends (g : GameId) (n : Nat) (hd : drawing) :
    Keeps (World.Spends drawing) (onStore (Store.drawCards g n)) :=
  onStore_spends (Store.drawCards_spends g n hd)

theorem drawCards_error {g : GameId} {n : Nat} {w v : World} {stop : Stop}
    (h : onStore (Store.drawCards g n) w = (.error stop, v)) : World.Spends False w v := by
  obtain ⟨e, t, ht, -, rfl⟩ := onStore_eq_error.mp h
  exact Store.drawCards_error ht

/-- A field of a player who is there can be written unless the call fails. -/
theorem update_mayFail {p : PlayerId} {f : PlayerField} {player : Player} {w v : World} {stop : Stop}
    (h : update p f w = (.error stop, v)) (hp : w.player? p = some player) :
    w.store.MayFail f.write := by
  obtain ⟨e, t, ht, -, rfl⟩ := onStore_eq_error.mp (show onStore _ w = _ from h)
  rcases Steps.bind_eq_error.mp ht with ht | ⟨_, u, hu, ht⟩
  · exact Store.perform_error ht
  · have hs := (Store.perform_alike f.write).apply hu
    have hthere : Store.thePlayer w.game p u = (.ok player, u) :=
      Store.thePlayer_eq_ok.mpr ⟨hs.records ▸ hp, rfl⟩
    cases (Steps.bind_apply_ok hthere).symm.trans ht

end Engine

namespace Noted

theorem ofEngine_spends {x : Engine α} (hx : Keeps (World.Spends drawing) x) :
    Keeps (Spends drawing) (ofEngine x) := fun (w, _) => hx w

theorem note_spends (c : Change) : Keeps (Spends drawing) (note c) := fun _ => .refl _

theorem overwrite_spends (player : Player) (f : PlayerField) :
    Keeps (Spends drawing) (overwrite player f) :=
  (note_spends _).bind fun _ => ofEngine_spends (Engine.update_spends _ _)

end Noted

theorem Change.undo_spends (g : GameId) (drop : Dropping Session) (c : Change) (s : Store)
    (d : Session) : s.Spends drawing (c.undo g drop s d).2.1 := by
  cases c with
  | player p f => exact Store.updatePlayer_spends g p f s
  | tiles p queue offer =>
    exact (Store.updatePlayer_spends g p _).bind (fun _ => Store.updatePlayer_spends g p _) s
  | subscribed => exact .refl s
  | parameter q n => exact Store.updateGame_spends g _ s

theorem UndoLog.undoAll_spends (g : GameId) (drop : Dropping Session) (cs : List Change) (s : Store)
    (d : Session) : s.Spends drawing (undoAll g drop cs s d).2.1 := by
  induction cs generalizing s d with
  | nil => exact .refl s
  | cons c rest ih => exact (Change.undo_spends g drop c s d).trans (ih _ _)

theorem transact_spends_of {drop : Dropping Session} {steps : Noted α} {w : World}
    (h : Noted.Spends drawing (w, []) (steps (w, [])).2) :
    World.Spends drawing w (transact drop steps w).2 := by
  unfold transact
  rcases hs : steps (w, []) with ⟨stop | a, u, noted⟩ <;> rw [hs] at h
  · cases stop with
    | refused e restored =>
      exact Store.Spends.trans h (UndoLog.undoAll_spends u.game drop noted u.store u.session)
    | brokenRange | tooDeep => exact h
  · exact h

theorem transact_spends {drop : Dropping Session} {steps : Noted α}
    (h : Keeps (Noted.Spends drawing) steps) : Keeps (World.Spends drawing) (transact drop steps) :=
  fun w => transact_spends_of (h (w, []))

/-- What is written draws no cards. -/
def spendsLaw (drawing : Prop) (rules : Rules) : WriteLaw rules where
  holds := Keeps (World.Spends drawing)
  plays _ := True
  pure := Keeps.pure
  bind := Keeps.bind
  gameId h := Engine.gameId_spends.bind fun g => h g trivial
  ofExcept := Engine.ofExcept_spends
  readGame := Engine.readGame_spends
  readPlayer := Engine.readPlayer_spends
  findCard := Engine.findCard_spends
  noted := Keeps (Noted.Spends drawing)
  noted_pure := Keeps.pure
  noted_bind := Keeps.bind
  noted_gameId h := (Noted.ofEngine_spends Engine.gameId_spends).bind fun g => h g trivial
  ofEngine := Noted.ofEngine_spends
  note _ := Noted.note_spends _
  brokenRange _ := Keeps.stop _
  update p f _ := Engine.update_spends p f
  updateGame := Engine.updateGame_spends
  addTiles _ _ _ _ := Engine.onStore_spends (Store.addTiles_spends _ _ _ _)
  subscribe _ _ _ := .refl _
  transact _ := transact_spends

/-- Nothing that is done brings outages about. -/
def outageLaw (rules : Rules) : PlanLaw rules :=
  (spendsLaw True rules).withDraws Engine.update_spends Noted.note_spends
    (fun _ n => Engine.drawCards_spends _ n trivial) fun _ _ => .refl _

theorem Noted.applySteps_spends (rules : Rules) (p : PlayerId) (steps : List (GlobalParameter × Int)) :
    Keeps (Spends drawing) (applySteps rules p steps) := (spendsLaw drawing rules).applySteps p steps

namespace Plan

open Noted

theorem writeRecord_spends (plan : Plan) (player : Player) (listening : Bool) :
    Keeps (Noted.Spends drawing) (plan.writeRecord player listening) :=
  (spendsLaw drawing {}).writeRecord plan player listening

theorem writeDraw_spends (plan : Plan) (player : Player) :
    Keeps (Noted.Spends (plan.draw ≠ 0)) (plan.writeDraw player) := by
  unfold writeDraw
  cases hn : plan.draw != 0
  · exact Keeps.pure _
  · refine (ofEngine_spends Engine.gameId_spends).bind fun g => ?_
    have hn : plan.draw ≠ 0 := by simpa using hn
    exact (ofEngine_spends (Engine.drawCards_spends g _ hn)).bind fun _ => overwrite_spends _ _

theorem commit_spends (plan : Plan) (rules : Rules) (listening : Bool) :
    Keeps (World.Spends (plan.draw ≠ 0)) (plan.commit rules listening) := by
  let L := spendsLaw (plan.draw ≠ 0) rules
  exact L.commit_of plan (L.writeDraw_of plan (writeDraw_spends plan)) listening

end Plan

end Spends

end MarsRules
