import MarsRules.Proofs.Handling

/-! Every request that finishes is a run of the steps with actions, queues, offers and boards that
there are (`Request.run_handled`), and a session is a log of such requests. What each step keeps holds
throughout (`Log.keeps`). -/

namespace MarsRules

open Steps (Keeps)

namespace Engine

variable {request : Request} {book : Rulebook} {rules : Rules} {p : PlayerId} {w v : World}
  {events : List Event}

theorem commitCard_handled {card : Card} {choice : Option Nat} {target : Option CardId}
    (h : commitCard rules p card choice target w = (.ok events, v)) : World.Handled request w v := by
  obtain ⟨player, t, hplayer, -⟩ := Steps.bind_eq_ok.mp h
  have hp := (readPlayer_ok hplayer).1
  obtain rfl := World.player?_id hp
  obtain ⟨board, hb⟩ := w.exists_playsOn
  obtain ⟨plan, hof, -, hx⟩ := commitCard_reached h (World.Reached.start hp) rfl rfl hb
  have hplayer := Plan.reached_player plan rules w board ⟨player, [], w.session, w.store.decks⟩
  refine hx.handled hp hb (by rw [hplayer]; rfl) ?_
  rw [hplayer]
  have hadded : Plan.useUp (player.actions ++ plan.actions) none = .ok _ := rfl
  exact Player.handled rfl hadded rfl rfl

theorem commitPlay_handled {r : PlayRequest} (h : commitPlay book p r w = (.ok events, v)) :
    World.Handled request w v := by
  obtain ⟨game, player, card, parameters, after, hg, hp, -, hplayed⟩ := commitPlay_played h
  obtain rfl := World.player?_id hp
  refine ⟨(congrArg Session.game hplayed.session).trans (Session.listen_game ..), ?_⟩
  rw [hplayed.records]
  refine Records.handled_change (fun _ => rfl) (World.PlaysOn.of_game? hg) hp ?_
  have hadded : Plan.useUp (player.actions ++ card.actions) none = .ok after.actions :=
    congrArg Except.ok hplayed.record.actions.symm
  exact Player.handled hplayed.record.id hadded hplayed.record.queue hplayed.record.tileOffer

theorem commitUse_handled {card : CardId} {index : Nat} {choice : Option Nat} {target : Option CardId}
    (h : commitUse rules p card index choice target w = (.ok events, v)) : World.Handled request w v := by
  obtain ⟨player, action, plan, board, actions, hp, -, -, hused, hb, hx⟩ := commitUse_reached h
  obtain rfl := World.player?_id hp
  have hplayer := Plan.reached_player plan rules w board ⟨player, [], w.session, w.store.decks⟩
  refine hx.handled hp hb (by rw [hplayer]; rfl) ?_
  rw [hplayer]
  exact Player.handled rfl hused rfl rfl

theorem commitPlacement_handled {c : Coord} {bonus : ResourceSet}
    (h : commitPlacement rules p c w = (.ok (bonus, events), v)) :
    World.Handled (.call (.act p (.place c))) w v := by
  obtain ⟨game, player, offer, board, hg, hp, hplaced⟩ := commitPlacement_placed h
  obtain rfl := World.player?_id hp
  exact hplaced.handled hg hp

theorem commitDraw_aside (p : PlayerId) (picked : List CardId) :
    Keeps (World.Wrote Entry.Aside) (commitDraw p picked) :=
  (StepLaw.keeps (World.Wrote Entry.Aside) World.Alike.wrote).commitDraw
    (fun _ hf => update_aside p (by grind)) picked

theorem chooseCorporation_aside (catalog : Catalog) (p : PlayerId) (id : CardId) :
    Keeps (World.Wrote Entry.Aside) (chooseCorporation catalog p id) :=
  (StepLaw.keeps (World.Wrote Entry.Aside) World.Alike.wrote).chooseCorporation
    (fun _ => update_aside p (by simp [PlayerField.write])) catalog id

theorem updateGame_handled (f : GameField) : Keeps (World.Handled request) (updateGame f) := by
  intro w
  rcases hu : updateGame f w with ⟨stop | _, v⟩
  · exact (updateGame_error hu).handled
  · obtain ⟨hs, hr, hd⟩ := updateGame_ok hu
    exact World.Becomes.handled (u := f.put) (fun _ => by cases f <;> rfl) ⟨hs, hd, hr⟩

theorem advanceGeneration_handled :
    Keeps (World.Handled (.call .advanceGeneration)) advanceGeneration := by
  let R := World.Handled (.call .advanceGeneration)
  refine (StepLaw.keeps R World.Alike.handled).advanceGeneration (fun _ => updateGame_handled _)
    (fun _ => alike_handled (onStore_alike (Store.readRoster_alike _))) fun p actions w => ?_
  obtain ⟨board, hb⟩ := w.exists_playsOn
  exact update_handled hb fun x _ => .renew rfl actions

theorem announce_handled (book : Rulebook) (events : List Event) :
    Keeps (World.Handled request) (announce book events) :=
  announce_keeps (fun l e => l.react_handled book e) events

end Engine

namespace Operation

variable {book : Rulebook} {p : PlayerId} {op : Operation} {w v : World}

theorem commit_handled {events : List Event} (h : op.commit book p w = (.ok events, v)) :
    World.Handled (.call (.act p op)) w v := by
  cases op with
  | selectCorporation id =>
    obtain ⟨card, u, hu, h⟩ := Steps.bind_eq_ok.mp h
    have hchosen := (Engine.chooseCorporation_aside _ _ _).apply hu
    exact hchosen.handled.trans (Engine.commitCard_handled (Engine.orElse_eq_ok.mp h))
  | play r => exact Engine.commitPlay_handled h
  | useAction card index choice target => exact Engine.commitUse_handled h
  | place c =>
    obtain ⟨_, u, hu, h⟩ := Steps.bind_eq_ok.mp h
    obtain ⟨-, rfl⟩ := Steps.pure_eq_ok.mp h
    exact Engine.commitPlacement_handled hu
  | confirmDraw picked =>
    obtain ⟨_, u, hu, h⟩ := Steps.bind_eq_ok.mp h
    obtain ⟨-, rfl⟩ := Steps.pure_eq_ok.mp h
    exact ((Engine.commitDraw_aside p picked).apply hu).handled

/-- A refusal leaves nothing behind, but for the fields that these steps leave aside. -/
theorem commit_refused_handled {e : Refusal} (h : op.commit book p w = (.error (.refused e true), v)) :
    World.Handled (.call (.act p op)) w v := by
  cases op with
  | selectCorporation id =>
    rcases Steps.bind_eq_error.mp h with h | ⟨card, u, hu, h⟩
    · exact ((Engine.chooseCorporation_aside _ _ _).apply h).handled
    · obtain ⟨x, hx, hback⟩ := Engine.orElse_eq_restored h
      have hchosen := (Engine.chooseCorporation_aside _ _ _).apply hu
      have hx := Engine.commitCard_reverts book.rules p card none none u e x hx
      have hput := (Engine.update_aside p (by simp [PlayerField.write])).apply hback
      exact (hchosen.handled.trans hx.handled).trans hput.handled
  | play r => exact (Engine.commitPlay_reverts book p r w e v h).handled
  | useAction card index choice target =>
    exact (Engine.commitUse_reverts book.rules p card index choice target w e v h).handled
  | place c =>
    rcases Steps.bind_eq_error.mp h with h | ⟨_, u, -, h⟩
    · exact (Engine.commitPlacement_reverts book.rules p c w e v h).handled
    · simp at h
  | confirmDraw picked =>
    rcases Steps.bind_eq_error.mp h with h | ⟨_, u, -, h⟩
    · exact ((Engine.commitDraw_aside p picked).apply h).handled
    · simp at h

theorem rest_aside (op : Operation) : Keeps (World.Wrote Entry.Aside) (op.rest book p) := by
  cases op with
  | selectCorporation id =>
    dsimp only [rest]
    split
    · exact Engine.update_aside p (by simp [PlayerField.write])
    · exact Keeps.pure _
  | play | useAction | place | confirmDraw => exact Keeps.pure _

end Operation

namespace SessionCall

variable {book : Rulebook} {c : SessionCall} {w v : World}

theorem commit_handled_of_ne (hc : ∀ p op, c ≠ act p op) :
    Keeps (World.Handled (.call c)) (c.commit book) := by
  cases c with
  | act p op => exact absurd rfl (hc p op)
  | canPlay p r =>
    refine Keeps.bind (Engine.alike_handled ?_) fun _ => Keeps.pure _
    exact (Engine.checkPlay_alike book p r).bind fun _ => Keeps.pure _
  | setTurn p => exact (Engine.updateGame_handled _).bind fun _ => Keeps.pure _
  | setPhase phase =>
    refine (Engine.alike_handled Engine.readGame_alike).bind fun game => ?_
    refine (Engine.updateGame_handled _).bind fun _ => ?_
    exact (Engine.alike_handled Engine.gameId_alike).bind fun _ => Keeps.pure _
  | advanceGeneration => exact Engine.advanceGeneration_handled.bind fun _ => Keeps.pure _
  | shutdown =>
    refine Keeps.bind (fun w => ⟨?_, .refl⟩) fun _ => Keeps.pure _
    show w.session.close.game = _
    unfold Session.close
    split <;> rfl

theorem commit_handled {events : List Event} (h : c.commit book w = (.ok events, v)) :
    World.Handled (.call c) w v := by
  have hother (hc : ∀ p op, c ≠ act p op) : World.Handled (.call c) w v :=
    (commit_handled_of_ne hc).apply h
  cases c with
  | act p op => exact Operation.commit_handled h
  | canPlay | setTurn | setPhase | advanceGeneration | shutdown => exact hother nofun

theorem commit_refused_handled {e : Refusal} (h : c.commit book w = (.error (.refused e true), v)) :
    World.Handled (.call c) w v := by
  have hother (hc : ∀ p op, c ≠ act p op) : World.Handled (.call c) w v :=
    (commit_handled_of_ne hc).apply h
  cases c with
  | act p op => exact Operation.commit_refused_handled h
  | canPlay | setTurn | setPhase | advanceGeneration | shutdown => exact hother nofun

theorem rest_handled (c : SessionCall) : Keeps (World.Handled (.call c)) (c.rest book) := by
  cases c with
  | act p op => exact Engine.wrote_handled op.rest_aside
  | canPlay | setTurn | setPhase | advanceGeneration | shutdown => exact Keeps.pure _

/-- A call that has finished is a run of its steps. -/
theorem run_handled {result : Except Stop Unit} (h : c.run book w = (result, v))
    (finished : Finished result) : World.Handled (.call c) w v := by
  rw [c.run_eq_commit] at h
  have hrest (events : List Event) :
      Keeps (World.Handled (.call c)) (Engine.announce book events >>= fun _ => c.rest book) :=
    (Engine.announce_handled book events).bind fun _ => c.rest_handled
  rcases hcommit : c.commit book w with ⟨stop | events, u⟩
  · rw [Steps.bind_apply_error hcommit] at h
    cases h
    obtain ⟨e, rfl⟩ := finished stop rfl
    exact commit_refused_handled hcommit
  · rw [Steps.bind_apply_ok hcommit] at h
    exact (commit_handled hcommit).trans ((hrest events).apply h)

end SessionCall

namespace Request

variable {book : Rulebook} {request : Request} {w v : World}

theorem run_handled {result : Except Stop Unit} (h : request.run book w = (result, v))
    (finished : Finished result) : World.Handled request w v := by
  cases request with
  | call c => exact SessionCall.run_handled h finished
  | trigger p =>
    have htrigger : Keeps (World.Handled (.trigger p)) (run book (.trigger p)) :=
      (Engine.triggerForced_handled book.catalog p).bind fun _ => Keeps.pure _
    exact htrigger.apply h

end Request

/-- A request that was made, how it ended, and the worlds before and after it. -/
structure Made where
  request : Request
  before : World
  result : Except Stop Unit
  after : World

def Made.of (book : Rulebook) (request : Request) (w : World) : Made :=
  ⟨request, w, (request.run book w).1, (request.run book w).2⟩

/-- The requests made in a session so far, oldest first, each of them finished. Calls on the store can
fail at any time. -/
inductive Log (book : Rulebook) (w₀ : World) : List Made → World → Prop
  | start : Log book w₀ [] w₀
  | next {made : List Made} {w : World} (h : Log book w₀ made w) (m : Made)
      (outages : Call → List Outage) (before : m.before = w.withOutages outages)
      (run : m.request.run book m.before = (m.result, m.after)) (finished : Finished m.result) :
      Log book w₀ (made ++ [m]) m.after

namespace Log

variable {book : Rulebook} {w₀ w : World} {made : List Made}

theorem step (h : Log book w₀ made w) (outages : Call → List Outage) {request : Request}
    (finished : Finished (Made.of book request (w.withOutages outages)).result) :
    Log book w₀ (made ++ [.of book request (w.withOutages outages)])
      (Made.of book request (w.withOutages outages)).after :=
  .next h _ outages rfl rfl finished

theorem split {xs ys : List Made} (h : Log book w₀ (xs ++ ys) w) :
    ∃ u, Log book w₀ xs u ∧ Log book u ys w := by
  generalize hmade : xs ++ ys = made at h
  induction h generalizing ys with
  | start =>
    obtain ⟨rfl, rfl⟩ := List.append_eq_nil_iff.mp hmade
    exact ⟨w₀, .start, .start⟩
  | next h m outages before run finished ih =>
    rcases List.eq_nil_or_concat ys with rfl | ⟨ys, m', rfl⟩
    · rw [List.append_nil] at hmade
      exact ⟨m.after, hmade ▸ .next h m outages before run finished, .start⟩
    · rw [List.concat_eq_append, ← List.append_assoc] at hmade
      obtain ⟨hearlier, hm⟩ := List.append_inj' hmade rfl
      obtain rfl := List.singleton_inj.mp hm
      obtain ⟨u, hxs, hys⟩ := ih hearlier
      exact ⟨u, hxs, List.concat_eq_append ▸ .next hys m' outages before run finished⟩

theorem last {m : Made} (h : Log book w₀ (made ++ [m]) w) : w = m.after ∧ ∃ u outages,
    Log book w₀ made u ∧ m.before = u.withOutages outages ∧
      m.request.run book m.before = (m.result, m.after) ∧ Finished m.result := by
  generalize hmade : made ++ [m] = all at h
  cases h with
  | start => simp at hmade
  | next h m' outages before run finished =>
    obtain ⟨rfl, hm⟩ := List.append_inj' hmade rfl
    obtain rfl := List.singleton_inj.mp hm
    exact ⟨rfl, _, outages, h, before, run, finished⟩

/-- What every step keeps holds throughout. -/
theorem keeps {I : Records → Prop} (h : Log book w₀ made w)
    (step : ∀ m ∈ made, ∀ r r', Records.Handling w₀.game m.request r r' → I r → I r')
    (h₀ : I w₀.records) : w.game = w₀.game ∧ I w.records := by
  induction h with
  | start => exact ⟨rfl, h₀⟩
  | @next made w h m outages before run finished ih =>
    obtain ⟨hgame, hw⟩ := ih fun m' hm' => step m' (List.mem_append_left _ hm')
    have hbefore : m.before.game = w₀.game := by rw [before]; exact hgame
    have hm : I m.before.records := by rw [before]; exact hw
    have hhandled := Request.run_handled run finished
    exact ⟨hhandled.game.trans hbefore, hhandled.keeps (hbefore ▸ step m (by simp)) hm⟩

/-- Each request of a log was made where an earlier part of the log had led. -/
theorem of_mem {m : Made} (h : Log book w₀ made w) (hm : m ∈ made) :
    ∃ earlier u, Log book w₀ earlier u ∧ m.before.game = u.game ∧ m.before.records = u.records ∧
      m.request.run book m.before = (m.result, m.after) ∧ Finished m.result := by
  induction h with
  | start => cases hm
  | @next made w h m' outages before run finished ih =>
    rcases List.mem_append.mp hm with hm | hm
    · exact ih hm
    · obtain rfl := List.mem_singleton.mp hm
      exact ⟨made, w, h, by rw [before]; rfl, by rw [before]; rfl, run, finished⟩

end Log

end MarsRules
