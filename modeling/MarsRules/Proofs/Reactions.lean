import MarsRules.Proofs.Laws
import MarsRules.Proofs.Writes

/-! What a reaction to an event writes. It leaves every player's effects alone, and each parameter
stays or moves once, by what the plan of the effect says. -/

namespace MarsRules

open Steps (Keeps)

/-- The parameters of the session's game. -/
def World.parameters (w : World) : Parameters :=
  ((w.records.game? w.game).map (·.parameters)).getD {}

theorem World.Alike.parameters {w v : World} (h : Alike w v) : v.parameters = w.parameters := by
  show ((v.store.records.game? v.session.game).map (·.parameters)).getD {} = _
  rw [h.session, h.store.records]; rfl

/-- A field of a player, but not the effects. -/
def Entry.Plain : Entry → Prop
  | .player _ f => f.write ≠ .effects
  | .parameter _ _ => False

/-- What a player has before them: tiles, drawn cards, a first action. -/
def Entry.Offers : Entry → Prop
  | .player _ f => f.write ∈ [Write.queue, .tileOffer, .drawOffer, .forced]
  | .parameter _ _ => False

theorem Entry.Offers.plain {e : Entry} (h : e.Offers) : e.Plain := by
  cases e with
  | player p f => cases f <;> simp_all [Offers, Plain, PlayerField.write]
  | parameter => exact h

/-- A plain field, or a parameter that is as it was at first or as these steps leave it. -/
def Entry.Moves (rules : Rules) (first : Parameters) (steps : List (GlobalParameter × Int)) :
    Entry → Prop
  | .player _ f => f.write ≠ .effects
  | .parameter q v => v = first.get q ∨
      ∃ n c, (q, n) ∈ steps ∧ ParameterChange.of? rules q (first.get q) n = some c ∧ v = c.after

namespace Records

variable {r : Records} {g : GameId} {es : List Entry}

theorem game?_changePlayer {g' : GameId} {p : PlayerId} {f : Player → Player} :
    (r.changePlayer g p f).game? g' = r.game? g' := by
  unfold changePlayer
  split <;> rfl

theorem game?_changeGame {f : Game → Game} :
    (r.changeGame g f).game? g = (r.game? g).map f := by
  unfold changeGame game?
  cases h : r.games.get? g <;> simp [h]

/-- The parameters of a game, if it is there. -/
def parameters (r : Records) (g : GameId) : Parameters :=
  ((r.game? g).map (·.parameters)).getD {}

theorem get_parameters_put (e : Entry) (q : GlobalParameter) :
    ((e.put g r).parameters g).get q = (r.parameters g).get q ∨
      ∃ v, e = .parameter q v ∧ ((e.put g r).parameters g).get q = v := by
  cases e with
  | player p f =>
    refine .inl ?_
    rw [parameters, Entry.put, game?_changePlayer]
    rfl
  | parameter q' v =>
    simp only [parameters, Entry.put, game?_changeGame]
    cases r.game? g with
    | none => exact .inl rfl
    | some game =>
      simp only [Option.map_some, Option.getD_some, GameField.put, Parameters.get_set]
      by_cases h : q' = q
      · exact .inr ⟨v, by rw [h], by simp [h]⟩
      · exact .inl (by simp [h])

/-- A parameter stays, or one of the entries is what it is afterwards. -/
theorem get_parameters_putAll (r : Records) (g : GameId) (es : List Entry) (q : GlobalParameter) :
    ((r.putAll g es).parameters g).get q = (r.parameters g).get q ∨
      .parameter q (((r.putAll g es).parameters g).get q) ∈ es := by
  induction es generalizing r with
  | nil => exact .inl rfl
  | cons e rest ih =>
    rw [putAll_cons]
    rcases ih (e.put g r) with h | h
    · rcases get_parameters_put (r := r) (g := g) e q with hp | ⟨v, rfl, hp⟩
      · exact .inl (h.trans hp)
      · refine .inr ?_
        rw [h, hp]
        exact List.mem_cons_self ..
    · exact .inr (List.mem_cons_of_mem _ h)

end Records

namespace World.Wrote

variable {w v : World}

theorem parameters_of_player {ok : Entry → Prop} (hok : ∀ q n, ¬ ok (.parameter q n)) (h : Wrote ok w v) :
    v.parameters = w.parameters := by
  obtain ⟨es, hr, hes⟩ := h.store
  have hr : v.records = w.records.putAll w.game es := hr
  refine Parameters.ext_get fun q => ?_
  have hq := Records.get_parameters_putAll w.records w.game es q
  rw [← hr] at hq
  show (v.records.parameters v.game).get q = _
  rw [h.game]
  exact hq.resolve_right fun he => hok _ _ (hes _ he)

theorem parameters_of_plain (h : Wrote Entry.Plain w v) : v.parameters = w.parameters :=
  h.parameters_of_player fun _ _ => id

theorem parameter_moves {rules : Rules} {steps : List (GlobalParameter × Int)}
    (h : Wrote (Entry.Moves rules w.parameters steps) w v) (q : GlobalParameter) :
    v.parameters.get q = w.parameters.get q ∨
      ∃ n c, (q, n) ∈ steps ∧ ParameterChange.of? rules q (w.parameters.get q) n = some c ∧
        v.parameters.get q = c.after := by
  obtain ⟨es, hr, hes⟩ := h.store
  have hr : v.records = w.records.putAll w.game es := hr
  have hq := Records.get_parameters_putAll w.records w.game es q
  rw [← hr] at hq
  have hv : v.parameters = v.records.parameters w.game := by rw [← h.game]; rfl
  rw [hv]
  rcases hq with hq | hq
  · exact .inl hq
  · exact hes _ hq

end World.Wrote

section Plain

variable {ok : Entry → Prop}

namespace Engine

theorem update_offers (hok : ∀ e, Entry.Offers e → ok e) (p : PlayerId) {f : PlayerField}
    (h : f.write ∈ [Write.queue, .tileOffer, .drawOffer, .forced]) : Keeps (World.Wrote ok) (update p f) := update_wrote (hok _ h)

/-- What is put before the players writes no more than that. -/
def wroteLaw (hok : ∀ e, Entry.Offers e → ok e) : OfferLaw where
  toStepLaw := .keeps (World.Wrote ok) World.Alike.wrote
  offer p f h := update_offers hok p ((by decide : [Write.queue, .tileOffer, .forced] ⊆
    [.queue, .tileOffer, .drawOffer, .forced]) h)
  offerCards p n _ := Keeps.bind (fun w => (gameId_alike w).wrote) fun g =>
    (drawCards_wrote g n).bind fun _ => update_offers hok p (by simp [PlayerField.write])

theorem offerNext_wrote (hok : ∀ e, Entry.Offers e → ok e) (p : PlayerId) (board : Board) :
    Keeps (World.Wrote ok) (offerNext p board) :=
  (wroteLaw hok).offerNext (fun _ => update_offers hok p (by simp [PlayerField.write]))
    (fun _ => update_offers hok p (by simp [PlayerField.write])) board

theorem triggerForced_wrote (hok : ∀ e, Entry.Offers e → ok e) (catalog : Catalog) (p : PlayerId) :
    Keeps (World.Wrote ok) (triggerForced catalog p) := (wroteLaw hok).triggerForced p catalog

theorem watchForced_wrote (hok : ∀ e, Entry.Offers e → ok e) (catalog : Catalog) (e : Event) :
    Keeps (World.Wrote ok) (watchForced catalog e) := (wroteLaw hok).watchForced catalog e

end Engine

namespace Noted

theorem overwrite_plain (hok : ∀ e, Entry.Plain e → ok e) {player : Player} {f : PlayerField}
    (h : f.write ≠ .effects) : Keeps (Recorded ok) (overwrite player f) :=
  overwrite_recorded fun f' hf => hok _ (show f'.write ≠ .effects from hf ▸ h)

end Noted

namespace Plan

open Noted

variable (plan : Plan) (player : Player)

theorem writeTiles_recorded (hok : ∀ e, Entry.Plain e → ok e) :
    Keeps (Recorded ok) (plan.writeTiles player) := by
  have hn : (Change.tiles player.id player.queue player.tileOffer).Within ok := fun e he => by
    have he : e = .player player.id (.queue player.queue) ∨
        e = .player player.id (.tileOffer player.tileOffer) := by simpa [Change.entries] using he
    rcases he with rfl | rfl <;> exact hok _ (by simp [Entry.Plain, PlayerField.write])
  refine Keeps.when ((note_recorded hn).bind fun _ =>
    (alike_recorded Engine.gameId_alike).bind_of ?_) _
  rintro ⟨w, noted⟩ g t hg
  obtain ⟨v, hv, rfl⟩ := ofEngine_eq_ok.mp hg
  cases hv
  have ha : Recorded ok (w, noted) (ofEngine (Engine.onStore
      (Store.addTiles w.game plan.player plan.source plan.tiles)) (w, noted)).2 :=
    ⟨Engine.addTiles_wrote (fun q => hok _ (by simp [Entry.Plain, PlayerField.write])) _ _ w,
      [], rfl, by simp⟩
  refine Steps.related_bind ha fun _ t _ => ?_
  refine Keeps.bind (ofEngine_recorded ?_) (fun _ => Keeps.pure _) t
  exact Keeps.bind (fun w => (Engine.readGame_alike w).wrote) fun game =>
    Engine.offerNext_wrote (fun e he => hok e he.plain) _ _

theorem writeAfterEffects_recorded (hok : ∀ e, Entry.Plain e → ok e) : Keeps (Recorded ok) (do
    plan.writePoints player
    plan.writeResources player
    plan.writeRating player
    plan.writeStorage player
    plan.writeTiles player) := by
  refine Keeps.bind ((overwrite_plain hok (by simp [PlayerField.write])).when _) fun _ => ?_
  refine Keeps.bind ((overwrite_plain hok (by simp [PlayerField.write])).when _) fun _ => ?_
  refine Keeps.bind ((overwrite_plain hok (by simp [PlayerField.write])).when _) fun _ => ?_
  refine Keeps.bind ((overwrite_plain hok (by simp [PlayerField.write])).when _) fun _ => ?_
  exact writeTiles_recorded plan player hok

theorem writeProduction_recorded (hok : ∀ e, Entry.Plain e → ok e) :
    Keeps (Recorded ok) (plan.writeProduction player) :=
  (overwrite_plain hok (by simp [PlayerField.write])).when _

theorem writeActions_recorded (hok : ∀ e, Entry.Plain e → ok e) :
    Keeps (Recorded ok) (plan.writeActions player) :=
  Keeps.when ((alike_recorded (Engine.ofExcept_alike _)).bind fun _ =>
    overwrite_plain hok (by simp [PlayerField.write])) _

/-- A plan without effects leaves the player's effects alone. -/
theorem writeRecord_recorded (hok : ∀ e, Entry.Plain e → ok e) (he : plan.effects = [])
    (listening : Bool) : Keeps (Recorded ok) (plan.writeRecord player listening) := by
  refine (writeProduction_recorded plan player hok).bind fun _ => ?_
  refine (writeActions_recorded plan player hok).bind fun _ => ?_
  refine Keeps.bind (by simp [writeEffects, he, Keeps.pure]) fun _ => ?_
  exact writeAfterEffects_recorded plan player hok

theorem writeDraw_recorded (hok : ∀ e, Entry.Plain e → ok e) :
    Keeps (Recorded ok) (plan.writeDraw player) := by
  refine Keeps.when ((alike_recorded Engine.gameId_alike).bind fun g => ?_) _
  exact (ofEngine_recorded (Engine.drawCards_wrote g _)).bind fun _ =>
    overwrite_plain hok (by simp [PlayerField.write])

end Plan

end Plain

section Moves

variable {rules : Rules} {first : Parameters} {all : List (GlobalParameter × Int)}

theorem Entry.Plain.moves {e : Entry} (h : e.Plain) : e.Moves rules first all := by
  cases e with
  | player => exact h
  | parameter => exact h.elim

namespace Noted

theorem moveParameter_recorded {q : GlobalParameter} {n : Int} (h : (q, n) ∈ all) :
    Keeps (Recorded (Entry.Moves rules first all)) (moveParameter rules first q n) := by
  unfold moveParameter
  split
  · exact Keeps.pure _
  · cases hc : ParameterChange.of? rules q (first.get q) n with
    | none => exact Keeps.stop _
    | some c =>
      dsimp only
      split
      · obtain ⟨-, hb⟩ := ParameterChange.of?_eq_some hc
        have hn : (Change.parameter q c.before).Within (Entry.Moves rules first all) := by
          intro e he
          obtain rfl := List.mem_singleton.mp he
          exact .inl hb
        refine (note_recorded hn).bind fun _ => ?_
        exact (ofEngine_recorded (Engine.updateParameter_wrote (.inr ⟨n, c, h, hc, rfl⟩))).bind
          fun _ => Keeps.pure _
      · exact Keeps.pure _

theorem moveParameters_recorded {steps : List (GlobalParameter × Int)} (h : steps ⊆ all) :
    Keeps (Recorded (Entry.Moves rules first all)) (moveParameters rules first steps) := by
  induction steps with
  | nil => exact Keeps.pure _
  | cons step rest ih =>
    obtain ⟨hs, hr⟩ := List.cons_subset.mp h
    exact (moveParameter_recorded hs).bind fun _ => (ih hr).bind fun _ => Keeps.pure _

theorem applySteps_recorded (p : PlayerId) (s : World × List Change) :
    Recorded (Entry.Moves rules s.1.parameters all) s (applySteps rules p all s).2 := by
  unfold applySteps
  split
  · exact Std.Refl.refl s
  · refine Steps.related_bind (alike_recorded Engine.readGame_alike s) fun game t hr => ?_
    obtain ⟨v, hv, rfl⟩ := ofEngine_eq_ok.mp hr
    obtain ⟨hg, -⟩ := Engine.readGame_ok hv
    rw [show s.1.parameters = game.parameters by simp [World.parameters, hg]]
    refine ((moveParameters_recorded (List.Subset.refl _)).bind fun changes => ?_) _
    refine Keeps.bind (Keeps.when (Keeps.bind (alike_recorded (Engine.readPlayer_alike p)) fun _ =>
      ?_) _) fun _ => Keeps.pure _
    exact overwrite_plain (fun _ => Entry.Plain.moves) (by simp [PlayerField.write])

end Noted

namespace Plan

open Noted

variable (plan : Plan)

theorem write_recorded (he : plan.effects = []) (rules : Rules) (listening : Bool)
    (s : World × List Change) :
    Recorded (Entry.Moves rules s.1.parameters plan.parameters) s
      (plan.write rules listening s).2 := by
  have hok : ∀ e, Entry.Plain e → Entry.Moves rules s.1.parameters plan.parameters e :=
    fun _ => Entry.Plain.moves
  refine Steps.related_bind (alike_recorded (Engine.readPlayer_alike _) s) fun player t hr => ?_
  have ht : t.1.parameters = s.1.parameters := by
    have h : Recorded Entry.Plain s t := (alike_recorded (Engine.readPlayer_alike _)).apply hr
    exact h.wrote.parameters_of_plain
  have hw : Keeps (Recorded Entry.Plain) (plan.writeRecord player listening) :=
    writeRecord_recorded plan player (fun _ => id) he listening
  refine Steps.related_bind ((hw t).mono hok) fun _ u hu => ?_
  have hu : u.1.parameters = s.1.parameters := (hw.apply hu).wrote.parameters_of_plain.trans ht
  refine Steps.related_bind (hu ▸ applySteps_recorded _ u) fun changes x _ => ?_
  exact ((writeDraw_recorded plan player hok).bind fun _ => Keeps.pure _) x

/-- What committing a plan without effects writes, whether it succeeds or not. -/
theorem commit_wrote (he : plan.effects = []) (rules : Rules) (listening : Bool) (w : World) :
    World.Wrote (Entry.Moves rules w.parameters plan.parameters) w
      (plan.commit rules listening w).2 :=
  Steps.related_bind (transact_wrote (write_recorded plan he rules listening (w, [])))
    fun _ _ _ => Std.Refl.refl _

end Plan

end Moves

end MarsRules
