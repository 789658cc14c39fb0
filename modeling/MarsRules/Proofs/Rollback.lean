import MarsRules.Proofs.Laws
import MarsRules.Proofs.Rewind

/-! What the parts of a transaction note is enough to put them back. -/

namespace MarsRules

open Steps (Keeps KeepsFrom)

def queueCells (p : PlayerId) : List Cell := [.player p .queue, .player p .tileOffer]

namespace World

theorem Masked.mono {cells cells' : List Cell} {w v : World} (h : Masked cells w v)
    (hc : cells ⊆ cells') : Masked cells' w v :=
  ⟨h.game, fun es hes => h.records es (List.Subset.trans hc hes)⟩

end World

@[simp] theorem Session.subscribe_game (s : Session) (owner : PlayerId) (e : CardEffect) :
    (s.subscribe owner e).2.game = s.game := by
  unfold subscribe
  split <;> rfl

namespace Engine

variable {p : PlayerId}

theorem changeSession_masked {f : Session → Session} (hf : ∀ s, (f s).game = s.game) :
    Keeps (World.Masked []) (changeSession f) := fun w => ⟨hf w.session, fun _ _ => rfl⟩

theorem offerNext_masked (p : PlayerId) (board : Board) :
    Keeps (World.Masked (queueCells p)) (offerNext p board) := by
  have hq (q : Option TileQueue) : Keeps (World.Masked (queueCells p)) (update p (.queue q)) :=
    fun w => (update_masked p _ w).mono (by simp [queueCells, PlayerField.write])
  have ho (o : Option TileOffer) : Keeps (World.Masked (queueCells p)) (update p (.tileOffer o)) :=
    fun w => (update_masked p _ w).mono (by simp [queueCells, PlayerField.write])
  exact (StepLaw.keeps (World.Masked (queueCells p)) fun h => h.masked _).offerNext hq ho board

theorem advanceQueue_masked (p : PlayerId) :
    Keeps (World.Masked (queueCells p)) (advanceQueue p) :=
  Keeps.bind (fun w => (readGame_alike w).masked _) fun game => offerNext_masked p game.board

theorem addTiles_masked (p : PlayerId) (source : String) (tiles : List TileKind) (w : World) :
    World.Masked (queueCells p) w (onStore (Store.addTiles w.game p source tiles) w).2 := by
  rcases h : onStore (Store.addTiles w.game p source tiles) w with ⟨stop | _, v⟩
  · obtain ⟨e, t, ht, -, rfl⟩ := onStore_eq_error.mp h
    exact (⟨rfl, Store.addTiles_error ht⟩ : World.Alike w { w with store := t }).masked _
  · obtain ⟨t, ht, rfl⟩ := onStore_eq_ok.mp h
    rcases Store.addTiles_ok ht with ha | ⟨q, hr⟩
    · exact (⟨rfl, ha⟩ : World.Alike w { w with store := t }).masked _
    · refine ⟨rfl, fun es hes => ?_⟩
      show t.records.putAll w.game es = _
      rw [hr]
      exact Records.putAll_put (d := .player p (.queue q)) (hes (by simp [queueCells, Entry.cell,
        PlayerField.write])) _

theorem drawCards_masked (g : GameId) (n : Nat) :
    Keeps (World.Masked []) (onStore (Store.drawCards g n)) := by
  intro w
  have hr := Store.drawCards_records g n w.store
  unfold onStore
  rcases h : Store.drawCards g n w.store with ⟨_ | _, t⟩ <;> rw [h] at hr <;>
    exact ⟨rfl, fun es _ => congrArg (Records.putAll · w.game es) hr⟩

end Engine

theorem ParameterChange.of?_eq_some {rules : Rules} {q : GlobalParameter} {current n : Int}
    {c : ParameterChange} (h : ParameterChange.of? rules q current n = some c) :
    c.parameter = q ∧ c.before = current := by
  obtain ⟨after, -, rfl⟩ := Option.map_eq_some_iff.mp h
  exact ⟨rfl, rfl⟩

/-- The parameters as they were read: each of them can be noted. -/
def ParametersRead (first : Parameters) (s : World × List Change) : Prop :=
  ∀ q, Harmless (.parameter q (first.get q)) s

theorem ParametersRead.covered {first : Parameters} (s t : World × List Change)
    (h : Covered [] s t) (hs : ParametersRead first s) : ParametersRead first t :=
  fun q => (hs q).covered h

theorem ParametersRead.of_game? {w : World} {noted : List Change} {game : Game}
    (h : w.records.game? w.game = some game) : ParametersRead game.parameters (w, noted) := by
  refine fun q => Harmless.of_current (Records.changeGame_of_game? fun x hx => ?_)
  obtain rfl : game = x := Option.some.inj (h.symm.trans hx)
  cases q <;> rfl

namespace Noted

variable {known cells : List Cell} {p : PlayerId}

theorem moveParameter_covered (rules : Rules) (first : Parameters) (q : GlobalParameter) (n : Int) :
    KeepsFrom (ParametersRead first) (Covered []) (moveParameter rules first q n) := by
  unfold moveParameter
  split
  · exact (Keeps.pure _).from _
  · cases hc : ParameterChange.of? rules q (first.get q) n with
    | none => exact (Keeps.stop _).from _
    | some c =>
      dsimp only
      split
      · rintro ⟨w, noted⟩ hs
        obtain ⟨-, hb⟩ := ParameterChange.of?_eq_some hc
        have hn : Covered [] (w, noted) (w, .parameter q c.before :: noted) :=
          covered_note fun e he => by
            obtain rfl := List.mem_singleton.mp he
            exact hb ▸ hs q
        have hu : Covered [] (w, .parameter q c.before :: noted) (ofEngine
            (Engine.updateGame (.parameter q c.after)) (w, .parameter q c.before :: noted)).2 :=
          covered_masked (Engine.updateParameter_masked q c.after w) fun _ => by
            simp [cellsOf, Change.entries, Entry.cell]
        exact hn.trans (Steps.related_bind hu fun _ t _ => Std.Refl.refl t)
      · exact (Keeps.pure _).from _

theorem moveParameters_covered (rules : Rules) (first : Parameters)
    (steps : List (GlobalParameter × Int)) :
    KeepsFrom (ParametersRead first) (Covered []) (moveParameters rules first steps) := by
  induction steps with
  | nil => exact (Keeps.pure _).from _
  | cons step rest ih =>
    refine (moveParameter_covered rules first step.1 step.2).bind ParametersRead.covered
      fun moved => ih.bind ParametersRead.covered fun _ => (Keeps.pure _).from _

theorem applySteps_covered (rules : Rules) (p : PlayerId) (steps : List (GlobalParameter × Int)) :
    Keeps (Covered []) (applySteps rules p steps) := by
  unfold applySteps
  split
  · exact Keeps.pure _
  · refine (covered_alike Engine.readGame_alike).bind_of ?_
    rintro ⟨w, noted⟩ game t hr
    obtain ⟨v, hv, rfl⟩ := ofEngine_eq_ok.mp hr
    obtain ⟨hg, ha⟩ := Engine.readGame_ok hv
    have hv : v.records.game? v.game = some game := by
      show v.store.records.game? v.session.game = _
      rw [ha.session, ha.store.records]
      exact hg
    refine Steps.related_bind (moveParameters_covered rules _ steps _ (ParametersRead.of_game? hv))
      fun changes t _ => ?_
    refine (Keeps.bind (Keeps.when (covered_readPlayer fun player _ => ?_) _) fun _ => Keeps.pure _) t
    exact overwrite_covered player _

theorem subscribe_covered (owner : PlayerId) (seen : List CardId) (effects : List CardEffect) :
    Keeps (Covered []) (subscribe owner seen effects) := by
  induction effects generalizing seen with
  | nil => exact Keeps.pure _
  | cons e rest ih =>
    have hn : Keeps (Covered []) (note (.subscribed e.card)) := fun _ =>
      covered_note fun e he => by simp [Change.entries] at he
    refine (hn.when _).bind fun _ => ?_
    exact (covered_ofEngine (Engine.changeSession_masked fun s => s.subscribe_game owner e)
      (List.nil_subset _)).bind fun _ => ih _

/-- The queue of a player and the offer in front of it can be noted, one on top of the other. -/
theorem note_tiles_covered {player : Player} {w : World} {noted : List Change}
    (hs : Snapshot player (w, noted)) :
    Covered [] (w, noted) (w, .tiles player.id player.queue player.tileOffer :: noted) := by
  refine covered_note fun e he => ?_
  have he : e = .player player.id (.queue player.queue) ∨
      e = .player player.id (.tileOffer player.tileOffer) := by simpa [Change.entries] using he
  rcases he with rfl | rfl
  · exact hs (.queue player.queue)
  · exact hs (.tileOffer player.tileOffer)

theorem queueCells_subset (player : Player) (noted : List Change) : queueCells player.id ⊆
    cellsOf (.tiles player.id player.queue player.tileOffer :: noted) := by
  simp [queueCells, cellsOf, Change.entries, Entry.cell, PlayerField.write]

/-- Once the tiles of a player are noted, they can be changed at will. -/
theorem noteTiles_covered {α : Type} (player : Player) {rest : Noted α}
    (hr : Keeps (Covered (queueCells player.id)) rest) :
    KeepsFrom (Snapshot player) (Covered [])
      (note (.tiles player.id player.queue player.tileOffer) >>= fun _ => rest) := by
  rintro ⟨w, noted⟩ hs
  have ht := hr (w, .tiles player.id player.queue player.tileOffer :: noted)
  exact (note_tiles_covered hs).trans ⟨ht.game, ht.older, fun _ => ht.base (queueCells_subset player noted)⟩

end Noted

namespace Plan

open Noted

variable (plan : Plan) (player : Player)

theorem writeActions_covered :
    KeepsFrom (Snapshot player) (Covered []) (plan.writeActions player) := by
  refine KeepsFrom.when (KeepsFrom.bind Snapshot.covered ?_ fun _ => overwrite_covered player _) _
  exact (covered_alike (Engine.ofExcept_alike _)).from _

theorem writeEffects_covered (listening : Bool) :
    KeepsFrom (Snapshot player) (Covered []) (plan.writeEffects player listening) :=
  ((overwrite_covered player _).bind Snapshot.covered fun _ =>
    ((subscribe_covered _ _ _).when _).from _).when _

theorem writeTiles_covered (hp : player.id = plan.player) :
    KeepsFrom (Snapshot player) (Covered []) (plan.writeTiles player) := by
  refine KeepsFrom.when (noteTiles_covered player ((covered_alike Engine.gameId_alike).bind_of ?_)) _
  rintro ⟨w, noted⟩ g t hg
  obtain ⟨v, hv, rfl⟩ := ofEngine_eq_ok.mp hg
  cases hv
  rw [hp]
  refine Steps.related_bind (covered_masked (Engine.addTiles_masked _ _ _ w) id) fun _ t _ => ?_
  exact ((covered_ofEngine (Engine.advanceQueue_masked _) (List.Subset.refl _)).bind
    fun _ => Keeps.pure _) t

theorem writeDraw_covered : KeepsFrom (Snapshot player) (Covered []) (plan.writeDraw player) := by
  refine KeepsFrom.when ?_ _
  refine ((covered_alike Engine.gameId_alike).from _).bind Snapshot.covered fun g => ?_
  exact ((covered_ofEngine (Engine.drawCards_masked g _) (List.nil_subset _)).from _).bind
    Snapshot.covered fun _ => overwrite_covered player _

theorem writeRecord_covered (hp : player.id = plan.player) (listening : Bool) :
    KeepsFrom (Snapshot player) (Covered []) (plan.writeRecord player listening) := by
  have hs := @Snapshot.covered player
  refine ((overwrite_covered player _).when _).bind hs fun _ => ?_
  refine (writeActions_covered plan player).bind hs fun _ => ?_
  refine (writeEffects_covered plan player listening).bind hs fun _ => ?_
  refine ((overwrite_covered player _).when _).bind hs fun _ => ?_
  refine ((overwrite_covered player _).when _).bind hs fun _ => ?_
  refine ((overwrite_covered player _).when _).bind hs fun _ => ?_
  refine ((overwrite_covered player _).when _).bind hs fun _ => ?_
  exact writeTiles_covered plan player hp

/-- Whatever stops the writing of a plan, what it noted leads back to where it started. -/
theorem write_covered (rules : Rules) (listening : Bool) :
    Keeps (Covered []) (plan.write rules listening) := by
  refine covered_readPlayer fun player hp => ?_
  have hs := @Snapshot.covered player
  refine (writeRecord_covered plan player hp listening).bind hs fun _ => ?_
  refine ((applySteps_covered rules _ _).from _).bind hs fun _ => ?_
  exact (writeDraw_covered plan player).bind hs fun _ => (Keeps.pure _).from _

end Plan

end MarsRules
