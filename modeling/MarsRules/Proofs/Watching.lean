import MarsRules.Proofs.Dealing

/-! How the forced actions listen. Only closing the session takes their subscriptions away
(`Request.run_watches`), and then all of them. -/

namespace MarsRules

open Steps (Keeps)

namespace Session

variable {s t : Session}

/-- The subscriptions of the forced actions. -/
def watchers (s : Session) : List (Subscription Listener) :=
  s.bus.subscriptions.filter (·.handler = .forcedAction)

theorem heeds_iff : s.Heeds ↔ s.watchers ≠ [] := by
  simp [Heeds, watchers, List.filter_eq_nil_iff]

theorem watching_iff : s.Watching ↔
    ∀ kind ∈ [EventKind.drawConfirmed, .tilePlaced], ∃ sub ∈ s.watchers, sub.kind = kind := by
  refine forall_congr' fun kind => forall_congr' fun _ => exists_congr fun sub => ?_
  simp only [Bus.listeners, watchers, List.mem_filter, beq_iff_eq, decide_eq_true_eq]
  tauto

theorem Same.watchers (h : s.Same t) : t.watchers = s.watchers := by
  unfold Session.watchers
  rw [h.bus]

theorem watchers_subscribe (s : Session) (owner : PlayerId) (e : CardEffect) :
    (s.subscribe owner e).2.watchers = s.watchers := by
  unfold subscribe
  cases e.eventKind? <;> simp [watchers, Bus.subscribe]

theorem watchers_listen (s : Session) (owner : PlayerId) (effects : List CardEffect) :
    (s.listen owner effects).watchers = s.watchers := by
  unfold listen
  induction effects.filter (·.isPassive) generalizing s with
  | nil => rfl
  | cons e rest ih => exact (ih _).trans (s.watchers_subscribe owner e)

theorem Filed.watchers_unsubscribe (h : s.Filed) (card : CardId) :
    (s.unsubscribe card).watchers = s.watchers := by
  unfold watchers
  rw [h.subscriptions_unsubscribe, List.filter_filter]
  refine List.filter_congr fun sub _ => ?_
  by_cases hsub : sub.handler = .forcedAction <;> simp [hsub, Listener.effect?]

theorem Filed.close (h : s.Filed) : s.close.Filed := by
  unfold Session.close
  split
  · exact h
  · exact ⟨nofun, nofun, fun _ _ hsub => by cases hsub⟩

theorem watchers_close (s : Session) : s.close.watchers = s.watchers ∨ s.close.watchers = [] := by
  unfold Session.close
  split
  · exact .inl rfl
  · exact .inr rfl

theorem start_watching {store : Store} {game : GameId} {recording : Bool}
    (h : start store game recording = .ok s) : s.Watching := by
  unfold start at h
  split at h
  · cases h
    intro kind hkind
    simp only [List.mem_cons, List.not_mem_nil, or_false] at hkind
    rcases hkind with rfl | rfl <;> simp [watch, Bus.listeners, Bus.subscribe]
  · cases h

end Session

/-- The same subscriptions. -/
def World.SameListeners (w v : World) : Prop := w.session.Same v.session

instance : Std.Refl World.SameListeners := ⟨fun w => .refl w.session⟩

instance : Trans World.SameListeners World.SameListeners World.SameListeners :=
  ⟨fun h h' => Session.Same.trans h h'⟩

theorem World.SameSession.listeners {w v : World} (h : SameSession w v) : w.SameListeners v := by
  unfold SameListeners
  rw [h]
  exact .refl _

theorem World.SameListeners.kept {w v : World} (h : w.SameListeners v) (filed : w.session.Filed) :
    v.session.Filed ∧ v.session.watchers = w.session.watchers := ⟨h.filed filed, h.watchers⟩

namespace Engine

theorem advanceGeneration_sameListeners : Keeps World.SameListeners advanceGeneration :=
  (StepLaw.keeps World.SameListeners fun h => World.SameSession.listeners h.session).advanceGeneration
    (fun _ w => (updateGame_sameSession _ w).listeners) (fun _ w => (onStore_sameSession _ w).listeners)
    fun _ _ w => (update_sameSession _ _ w).listeners

theorem setPhase_sameListeners (book : Rulebook) (phase : GamePhase) :
    Keeps World.SameListeners (setPhase book phase) := by
  have hsame {α : Type} {x : Engine α} (hx : Keeps World.SameSession x) : Keeps World.SameListeners x :=
    fun w => (hx w).listeners
  refine (hsame readGame_sameSession).bind fun game => (hsame (updateGame_sameSession _)).bind fun _ => ?_
  exact (hsame gameId_sameSession).bind fun g => fun w => (announce_quiet book _ w).same

end Engine

namespace World

variable {catalog : Catalog} {p : PlayerId} {id : CardId} {w v : World}

/-- Putting a card into play leaves the forced actions alone. -/
theorem Turned.watchers (h : Turned catalog p id w v) (filed : w.session.Filed) :
    v.session.Filed ∧ v.session.watchers = w.session.watchers := by
  cases h with
  | quiet h => exact SameListeners.kept h.same filed
  | added card found same recorded =>
    exact ⟨same.filed filed.listen, same.watchers.trans (Session.watchers_listen _ _ _)⟩
  | rewound card found same recorded =>
    have hfiled : (w.session.listen p card.effects).Filed := filed.listen
    refine ⟨same.filed (hfiled.unsubscribe card.id), same.watchers.trans ?_⟩
    exact (hfiled.watchers_unsubscribe card.id).trans (Session.watchers_listen _ _ _)

end World

/-- Whatever is requested, the forced actions listen as before, unless the session is closed. -/
theorem Request.run_watches {book : Rulebook} {request : Request} {w v : World}
    {result : Except Stop Unit} (h : request.run book w = (result, v)) (finished : Finished result)
    (filed : w.session.Filed) : v.session.Filed ∧ (v.session.watchers = w.session.watchers ∨
      request = .call .shutdown ∧ v.session.watchers = []) := by
  have hsame {x : Engine Unit} (hx : Keeps World.SameListeners x) (h : x w = (result, v)) :
      v.session.Filed ∧ v.session.watchers = w.session.watchers := (hx.apply h).kept filed
  cases request with
  | trigger p =>
    have htrigger : Keeps World.SameListeners (run book (.trigger p)) :=
      Keeps.bind (fun w => (Engine.triggerForced_wrote (fun _ _ => trivial) book.catalog p w :
        World.Wrote (fun _ => True) _ _).same) fun _ => Keeps.pure _
    exact (hsame htrigger h).imp_right .inl
  | call c =>
    cases c with
    | act p op =>
      rcases Operation.run_turns book p op h finished with hquiet | ⟨id, -, hturned⟩
      · exact (World.SameListeners.kept hquiet.same filed).imp_right .inl
      · exact (hturned.watchers filed).imp_right .inl
    | canPlay p r =>
      have hcheck : Keeps World.SameListeners (Engine.canPlay book p r) :=
        Keeps.bind (fun w => (Engine.checkPlay_alike book p r w).quiet.same) fun _ => Keeps.pure _
      exact (hsame hcheck h).imp_right .inl
    | setTurn p =>
      exact (hsame (fun w => (Engine.updateGame_sameSession _ w).listeners) h).imp_right .inl
    | setPhase phase => exact (hsame (Engine.setPhase_sameListeners book phase) h).imp_right .inl
    | advanceGeneration =>
      exact (hsame (Engine.advanceGeneration_sameListeners.bind fun _ => Keeps.pure _) h).imp_right .inl
    | shutdown =>
      cases h
      exact ⟨filed.close, w.session.watchers_close.imp_right fun h => ⟨rfl, h⟩⟩

namespace Log

variable {book : Rulebook} {w₀ w : World} {made : List Made}

/-- In the course of a session the forced actions listen as at its start, until it is closed. -/
theorem watchers (h : Log book w₀ made w) (filed : w₀.session.Filed) : w.session.Filed ∧
    (w.session.watchers = w₀.session.watchers ∨
      (∃ m ∈ made, m.request = .call .shutdown) ∧ w.session.watchers = []) := by
  induction h with
  | start => exact ⟨filed, .inl rfl⟩
  | @next made w h m outages before run finished ih =>
    obtain ⟨hfiled, hw⟩ := ih
    have hsession : m.before.session = w.session := by rw [before]; rfl
    obtain ⟨hv, hkept⟩ := Request.run_watches run finished (hsession ▸ hfiled)
    rw [hsession] at hkept
    refine ⟨hv, ?_⟩
    rcases hkept with hkept | ⟨hclosed, hnone⟩
    · rw [hkept]
      refine hw.imp_right (And.imp_left fun ⟨m', hm', hclosed⟩ => ?_)
      exact ⟨m', List.mem_append_left _ hm', hclosed⟩
    · exact .inr ⟨⟨m, by simp, hclosed⟩, hnone⟩

theorem watching_of_heeds (h : Log book w₀ made w) (filed : w₀.session.Filed)
    (watching : w₀.session.Watching) (hw : w.session.Heeds) : w.session.Watching := by
  rw [Session.watching_iff] at watching ⊢
  rw [Session.heeds_iff] at hw
  rcases (h.watchers filed).2 with hsame | ⟨-, hnone⟩
  · rwa [hsame]
  · exact absurd hnone hw

theorem heeds_earlier (h : Log book w₀ made w) (filed : w₀.session.Filed) (hw : w.session.Heeds) :
    w₀.session.Heeds := by
  rw [Session.heeds_iff] at hw ⊢
  rcases (h.watchers filed).2 with hsame | ⟨-, hnone⟩
  · rwa [← hsame]
  · exact absurd hnone hw

/-- The forced actions of a session that has not been closed hear of what is resolved. -/
theorem watching_of_open (h : Log book w₀ made w) (filed : w₀.session.Filed)
    (watching : w₀.session.Watching) (hopen : ∀ m ∈ made, m.request ≠ .call .shutdown) :
    w.session.Watching := by
  rw [Session.watching_iff] at watching ⊢
  rcases (h.watchers filed).2 with hsame | ⟨⟨m, hm, hclosed⟩, -⟩
  · rwa [hsame]
  · exact absurd hclosed (hopen m hm)

end Log

end MarsRules
