import MarsRules.Proofs.Played
import MarsRules.Proofs.Quiet

/-! What a card that is refused does to the subscriptions. Its effects are subscribed halfway through
the writes. If a later write is refused, the card is dropped, and with it all that is filed under it,
for whomever it was subscribed. -/

namespace MarsRules

open Steps (Keeps)

/-- Steps that make no subscriptions and note none. -/
abbrev Unheard : World × List Change → World × List Change → Prop := Recorded fun _ => True

/-- What the session was, or what it is once these effects were subscribed and one note made of it. -/
structure Loud (owner : PlayerId) (card : CardId) (effects : List CardEffect)
    (s t : World × List Change) : Prop where
  same : (s.1.session.listen owner effects).Same t.1.session
  noted : ∃ cs ds, t.2 = cs ++ .subscribed card :: ds ++ s.2 ∧
    (∀ c ∈ cs, c.Within fun _ => True) ∧ ∀ c ∈ ds, c.Within fun _ => True

def Heard (owner : PlayerId) (card : CardId) (effects : List CardEffect)
    (s t : World × List Change) : Prop := Unheard s t ∨ Loud owner card effects s t

section Heard

variable {owner : PlayerId} {card : CardId} {effects : List CardEffect} {s t u : World × List Change}

theorem Heard.after (h : Unheard s t) (h' : Heard owner card effects t u) :
    Heard owner card effects s u := by
  rcases h' with h' | h'
  · exact .inl (h.trans h')
  · obtain ⟨bs, ht, hbs⟩ := h.noted
    obtain ⟨cs, ds, hu, hcs, hds⟩ := h'.noted
    exact .inr ⟨(h.wrote.same.listen owner effects).trans h'.same, cs, ds ++ bs, by simp [hu, ht], hcs,
      by simpa [or_imp, forall_and] using ⟨hds, hbs⟩⟩

theorem Heard.before (h : Heard owner card effects s t) (h' : Unheard t u) :
    Heard owner card effects s u := by
  rcases h with h | h
  · exact .inl (h.trans h')
  · obtain ⟨cs, ds, ht, hcs, hds⟩ := h.noted
    obtain ⟨bs, hu, hbs⟩ := h'.noted
    exact .inr ⟨h.same.trans h'.wrote.same, bs ++ cs, ds, by simp [hu, ht],
      by simpa [or_imp, forall_and] using ⟨hbs, hcs⟩, hds⟩

variable {α β : Type} {x : Noted α} {f : α → Noted β}

theorem Steps.Keeps.bind_heard (hx : Keeps Unheard x)
    (hf : ∀ a, Keeps (Heard owner card effects) (f a)) : Keeps (Heard owner card effects) (x >>= f) := by
  intro s
  have h := hx s
  rw [Steps.bind_apply]
  rcases hs : x s with ⟨_ | a, t⟩ <;> rw [hs] at h
  · exact .inl h
  · exact .after h (hf a t)

theorem Steps.Keeps.bind_unheard (hx : Keeps (Heard owner card effects) x)
    (hf : ∀ a, Keeps Unheard (f a)) : Keeps (Heard owner card effects) (x >>= f) := by
  intro s
  have h := hx s
  rw [Steps.bind_apply]
  rcases hs : x s with ⟨_ | a, t⟩ <;> rw [hs] at h
  · exact h
  · exact h.before (hf a t)

end Heard

namespace Noted

variable {owner : PlayerId} {card : CardId} {effects : List CardEffect}

/-- No note is made of a card that is noted already. -/
theorem subscribe_noted (owner : PlayerId) (seen : List CardId) (hc : ∀ e ∈ effects, e.card = card)
    (hs : card ∈ seen) (w : World) (noted : List Change) :
    subscribe owner seen effects (w, noted) = (.ok (),
      ⟨w.store, effects.foldl (fun s e => (s.subscribe owner e).2) w.session⟩, noted) := by
  induction effects generalizing seen w with
  | nil => rfl
  | cons e rest ih =>
    obtain ⟨he, hr⟩ := List.forall_mem_cons.mp hc
    have hseen : (!seen.contains e.card) = false := by simp [he, hs]
    rw [subscribe, hseen]
    exact ih _ hr (List.mem_cons_of_mem _ hs) _

theorem subscribe_heard (hc : ∀ e ∈ effects, e.card = card) :
    Keeps (Heard owner card effects) (subscribe owner [] (effects.filter (·.isPassive))) := by
  rintro ⟨w, noted⟩
  cases hp : effects.filter (·.isPassive) with
  | nil => exact .inl (Std.Refl.refl _)
  | cons e rest =>
    have hc : ∀ e' ∈ e :: rest, e'.card = card := fun e' he =>
      hc e' (List.mem_filter.mp (hp ▸ he)).1
    obtain ⟨he, hr⟩ := List.forall_mem_cons.mp hc
    have hrest := subscribe_noted owner [e.card] hr (by simp [he])
      { w with session := (w.session.subscribe owner e).2 } (.subscribed e.card :: noted)
    have hsub : subscribe owner [] (e :: rest) (w, noted) =
        (.ok (), ⟨w.store, w.session.listen owner effects⟩, .subscribed card :: noted) := by
      rw [Session.listen, hp, ← he]
      exact hrest
    rw [hsub]
    exact .inr ⟨.refl _, [], [], rfl, by simp, by simp⟩

end Noted

namespace Plan

open Noted

variable {plan : Plan} {card : CardId}

theorem writeEffects_heard (hc : ∀ e ∈ plan.effects, e.card = card) (player : Player) :
    Keeps (Heard plan.player card plan.effects) (plan.writeEffects player true) := by
  have ho : Keeps Unheard (overwrite player (.effects (player.effects ++ plan.effects))) :=
    overwrite_recorded fun _ _ => trivial
  unfold writeEffects
  cases plan.effects.isEmpty
  · exact ho.bind_heard fun _ => subscribe_heard hc
  · exact fun s => .inl (Std.Refl.refl s)

theorem write_heard (hc : ∀ e ∈ plan.effects, e.card = card) (rules : Rules) :
    Keeps (Heard plan.player card plan.effects) (plan.write rules true) := by
  have hok : ∀ e, Entry.Plain e → True := fun _ _ => trivial
  refine Keeps.bind_heard (alike_recorded (Engine.readPlayer_alike _)) fun player => ?_
  refine Keeps.bind_unheard ?_ fun _ => ?_
  · refine Keeps.bind_heard (writeProduction_recorded plan player hok) fun _ => ?_
    refine Keeps.bind_heard (writeActions_recorded plan player hok) fun _ => ?_
    exact (writeEffects_heard hc player).bind_unheard fun _ => writeAfterEffects_recorded plan player hok
  · refine Keeps.bind (fun s => (applySteps_recorded _ s).mono fun _ _ => trivial) fun changes => ?_
    exact (writeDraw_recorded plan player hok).bind fun _ => Keeps.pure _

end Plan

/-- Nothing was done, or effects were subscribed and then their card was dropped. -/
def Session.Rewound (owner : PlayerId) (card : CardId) (effects : List CardEffect) (s t : Session) :
    Prop := s.Same t ∨ ((s.listen owner effects).unsubscribe card).Same t

namespace Session.Rewound

variable {owner : PlayerId} {card : CardId} {effects : List CardEffect} {s t u : Session}

theorem after (h : s.Same t) (h' : Rewound owner card effects t u) : Rewound owner card effects s u :=
  h'.imp h.trans fun h' => ((h.listen owner effects).unsubscribe card).trans h'

theorem before (h : Rewound owner card effects s t) (h' : t.Same u) : Rewound owner card effects s u :=
  h.imp (·.trans h') (·.trans h')

end Session.Rewound

namespace UndoLog

variable {g : GameId} {drop : Dropping Session} {cs ds : List Change}

theorem undoAll_append (s : Store) (d : Session) : (undoAll g drop (cs ++ ds) s d).2 =
    (undoAll g drop ds (undoAll g drop cs s d).2.1 (undoAll g drop cs s d).2.2).2 := by
  induction cs generalizing s d with
  | nil => rfl
  | cons c rest ih => exact ih _ _

theorem undoAll_dropCard {card : CardId} (hcs : ∀ c ∈ cs, c.Within fun _ => True)
    (hds : ∀ c ∈ ds, c.Within fun _ => True) (s : Store) (d : Session) :
    (undoAll g Session.dropCard (cs ++ .subscribed card :: ds) s d).2.2 = d.unsubscribe card := by
  rw [undoAll_append]
  refine (undoAll_wrote g Session.dropCard hds _ _).2.trans ?_
  rw [(undoAll_wrote g Session.dropCard hcs s d).2]

end UndoLog

section Transact

variable {α : Type} {steps : Noted α} {w v : World} {e : Refusal} {b : Bool}

/-- Where a refused transaction leaves the session. -/
theorem transact_session {drop : Dropping Session}
    (h : transact drop steps w = (.error (.refused e b), v)) : ∃ b' u noted,
      steps (w, []) = (.error (.refused e b'), u, noted) ∧
        v.session = (UndoLog.undoAll u.game drop noted u.store u.session).2.2 := by
  rcases hs : steps (w, []) with ⟨stop | a, u, noted⟩
  · cases stop with
    | refused e' b' =>
      simp only [transact, hs, UndoLog.rewind, Prod.mk.injEq, Except.error.injEq,
        Stop.refused.injEq] at h
      obtain ⟨⟨rfl, -⟩, rfl⟩ := h
      exact ⟨b', u, noted, rfl, rfl⟩
    | brokenRange | tooDeep => simp [transact, hs] at h
  · simp [transact, hs] at h

theorem transact_rewound {owner : PlayerId} {card : CardId} {effects : List CardEffect}
    (hs : Keeps (Heard owner card effects) steps)
    (h : transact Session.dropCard steps w = (.error (.refused e b), v)) :
    Session.Rewound owner card effects w.session v.session := by
  obtain ⟨b', u, noted, hsteps, hv⟩ := transact_session h
  rw [hv]
  rcases hs.apply hsteps with hquiet | hloud
  · obtain ⟨cs, hcs, hn⟩ := hquiet.noted
    obtain rfl : noted = cs := by simpa using hcs
    rw [(UndoLog.undoAll_wrote u.game _ hn u.store u.session).2]
    exact .inl hquiet.wrote.same
  · obtain ⟨cs, ds, hn, hcs, hds⟩ := hloud.noted
    obtain rfl : noted = cs ++ .subscribed card :: ds := by simpa using hn
    rw [UndoLog.undoAll_dropCard hcs hds]
    exact .inr (hloud.same.unsubscribe card)

/-- A transaction that drops nothing leaves the session as its steps leave it. -/
theorem transact_keepAll_session (h : transact keepAll steps w = (.error (.refused e b), v)) :
    ∃ b' u noted, steps (w, []) = (.error (.refused e b'), u, noted) ∧ v.session = u.session := by
  obtain ⟨b', u, noted, hsteps, hv⟩ := transact_session h
  refine ⟨b', u, noted, hsteps, hv.trans ?_⟩
  exact (UndoLog.undoAll_keeper (R := fun d d' : Session => d = d') (fun _ _ => rfl) noted _ _).symm

end Transact

theorem Card.card_of_mem_effects {card : Card} {e : CardEffect} (h : e ∈ card.effects) :
    e.card = card.id := by
  obtain ⟨_, -, rfl⟩ := List.mem_map.mp h
  rfl

namespace Engine

variable {w v : World} {p : PlayerId} {card : Card} {e : Refusal} {b : Bool}

theorem commitCard_rewound {rules : Rules} {choice : Option Nat} {target : Option CardId}
    (h : commitCard rules p card choice target w = (.error (.refused e b), v)) :
    Session.Rewound p card.id card.effects w.session v.session := by
  rcases Steps.bind_eq_error.mp h with h | ⟨player, u, hplayer, h⟩
  · exact .inl ((readPlayer_alike p).apply h).quiet.same
  have hu := ((readPlayer_alike p).apply hplayer).quiet.same
  rcases Steps.bind_eq_error.mp h with h | ⟨plan, t, hplan, h⟩
  · exact .inl (hu.trans ((ofExcept_alike _).apply h).quiet.same)
  obtain ⟨hof, rfl⟩ := ofExcept_eq_ok.mp hplan
  split at h
  · simp at h
  · have hgains := (Plan.ofCard_gains hof).1
    have heffects : plan.effects = card.effects := hgains.effects
    have hp : plan.player = p := hgains.player.trans (World.player?_id (readPlayer_ok hplayer).1)
    have hcard : ∀ e ∈ plan.effects, e.card = card.id := fun e he =>
      Card.card_of_mem_effects (heffects ▸ he)
    have hw := Plan.write_heard hcard rules
    rw [hp, heffects] at hw
    rcases Steps.bind_eq_error.mp h with h | ⟨changes, t, -, h⟩
    · exact .after hu (transact_rewound hw h)
    · exact absurd rfl (gameId_neverRefuses.bind (fun _ => Steps.StopsOnly.pure _) t _ v h e b)

end Engine

end MarsRules
