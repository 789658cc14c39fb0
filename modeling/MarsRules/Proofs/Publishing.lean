import MarsRules.Proofs.Steps
import MarsRules.Session.Publish

/-! Publishing as nested loops: over the listeners of an event, and over the events that each of them
gives rise to. What holds of every listener holds of the whole, and a refusal is never passed on. -/

namespace MarsRules

open Steps (Keeps StopsOnly)

namespace Bus

variable {m : Type → Type} [Monad m] {η : Type}

theorem deliver_cons (isLive : SubscriptionId → m Bool) (call : Subscription η → m Bool)
    (s : Subscription η) (rest : List (Subscription η)) :
    deliver isLive call (s :: rest) = isLive s.id >>= fun live =>
      (if live then call s else pure false) >>= fun succeeded =>
        deliver isLive call rest >>= fun n => pure (if succeeded then n + 1 else n) := by
  rw [deliver]
  refine congrArg _ (funext fun live => ?_)
  cases live <;> rfl

end Bus

namespace Engine

variable {α : Type} {book : Rulebook}

def isLive (id : SubscriptionId) : Engine Bool := return (← session).bus.isRegistered id

theorem isLive_of_isRegistered {id : SubscriptionId} {w : World}
    (h : w.session.bus.isRegistered id = true) : isLive id w = (.ok true, w) :=
  congrArg (fun live => (Except.ok live, w)) h

/-- One listener's turn: it reacts, and what it gives rise to is published. -/
def takeTurn (book : Rulebook) (depth : Nat) (e : Event) (s : Subscription Listener) :
    Engine Bool := do
  match ← outcome (s.handler.react book e) with
  | .ok events =>
    events.forM fun e => do let _ ← publishWithin book depth e
    return true
  | .error _ => return false

theorem publishWithin_succ (book : Rulebook) (depth : Nat) (e : Event) :
    publishWithin book (depth + 1) e =
      session >>= fun s => Bus.deliver isLive (takeTurn book depth e) (s.bus.listeners e.kind) :=
  rfl

theorem session_keeps {R : World → World → Prop} [Std.Refl R] : Keeps R session :=
  fun w => Std.Refl.refl w

theorem session_stopsOnly {S : Stop → Prop} : StopsOnly S session := fun w stop v h => by cases h

theorem isLive_keeps {R : World → World → Prop} [Std.Refl R] (id : SubscriptionId) :
    Keeps R (isLive id) := fun w => Std.Refl.refl w

theorem isLive_stopsOnly {S : Stop → Prop} (id : SubscriptionId) : StopsOnly S (isLive id) :=
  fun w stop v h => by cases h

section Keeps

variable {R : World → World → Prop}

theorem outcome_keeps {x : Engine α} (hx : Keeps R x) : Keeps R (outcome x) := by
  intro w
  have := hx w
  unfold outcome
  rcases h : x w with ⟨stop | a, v⟩ <;> rw [h] at this
  · cases stop <;> exact this
  · exact this

variable [Std.Refl R] [Trans R R R]

theorem deliver_keeps {call : Subscription Listener → Engine Bool}
    {subs : List (Subscription Listener)} (hc : ∀ s ∈ subs, Keeps R (call s)) :
    Keeps R (Bus.deliver isLive call subs) := by
  induction subs with
  | nil => exact Keeps.pure _
  | cons s rest ih =>
    obtain ⟨hs, hrest⟩ := List.forall_mem_cons.mp hc
    rw [Bus.deliver_cons]
    refine (isLive_keeps s.id).bind fun live => Keeps.bind ?_ fun _ => (ih hrest).bind fun _ => Keeps.pure _
    cases live
    · exact Keeps.pure _
    · exact hs

theorem outcome_eq_ok {x : Engine α} {w v : World} {a : α} (h : outcome x w = (.ok (.ok a), v)) :
    x w = (.ok a, v) := by
  unfold outcome at h
  split at h <;> simp_all

/-- What the reactions to an event keep of those who listen here, and what publishing keeps that
listeners give rise to. -/
theorem publishWithin_keeps_here {depth : Nat} {e : Event} {w : World}
    (hr : ∀ s ∈ w.session.bus.listeners e.kind, Keeps R (s.handler.react book e))
    (hrest : ∀ l w events v, Listener.react book e l w = (.ok events, v) →
      ∀ e' ∈ events, Keeps R (publishWithin book depth e')) :
    R w (publishWithin book (depth + 1) e w).2 := by
  rw [publishWithin_succ]
  refine Steps.related_bind (Std.Refl.refl w) fun _ _ hsession => ?_
  cases hsession
  refine deliver_keeps (fun s hs => ?_) w
  refine (outcome_keeps (hr s hs)).bind_of fun w r v h => ?_
  cases r with
  | error e => exact Std.Refl.refl v
  | ok events =>
    refine Keeps.bind (Keeps.forM_of fun e' he' => ?_) (fun _ => Keeps.pure _) v
    exact (hrest _ w events v (outcome_eq_ok h) e' he').bind fun _ => Keeps.pure _

theorem publishWithin_keeps_of {depth : Nat} {e : Event}
    (hr : ∀ l, Keeps R (Listener.react book e l))
    (hrest : ∀ l w events v, Listener.react book e l w = (.ok events, v) →
      ∀ e' ∈ events, Keeps R (publishWithin book depth e')) :
    Keeps R (publishWithin book (depth + 1) e) := fun _ =>
  publishWithin_keeps_here (fun s _ => hr s.handler) hrest

section Reaches

variable {P : World → Prop} {w v : World} {n : Nat}

/-- What one of the listeners brings about, and all of them leave standing, stands in the end. -/
theorem deliver_reaches {call : Subscription Listener → Engine Bool} {s : Subscription Listener}
    {subs : List (Subscription Listener)} {w₀ : World} (hc : ∀ s, Keeps R (call s))
    (hP : ∀ u v, P u → R u v → P v) (hs : s ∈ subs)
    (hlive : ∀ u, R w₀ u → u.session.bus.isRegistered s.id = true)
    (hreach : ∀ u r v, R w₀ u → call s u = (.ok r, v) → P v) (hstart : R w₀ w)
    (h : Bus.deliver isLive call subs w = (.ok n, v)) : P v := by
  induction subs generalizing w n with
  | nil => cases hs
  | cons t rest ih =>
    rw [Bus.deliver_cons] at h
    obtain ⟨live, _, hl, h⟩ := Steps.bind_eq_ok.mp h
    cases hl
    obtain ⟨succeeded, x, hx, h⟩ := Steps.bind_eq_ok.mp h
    obtain ⟨m, y, hy, h⟩ := Steps.bind_eq_ok.mp h
    obtain ⟨-, rfl⟩ := Steps.pure_eq_ok.mp h
    rcases List.mem_cons.mp hs with rfl | hs
    · rw [hlive w hstart, if_pos rfl] at hx
      exact hP x y (hreach w _ x hstart hx) ((deliver_keeps fun s _ => hc s).apply hy)
    · have hturn : R w x := by
        cases hr : w.session.bus.isRegistered t.id <;> rw [hr] at hx
        · obtain ⟨-, rfl⟩ := Steps.pure_eq_ok.mp hx
          exact Std.Refl.refl w
        · exact (hc t).apply hx
      exact ih hs (Trans.trans hstart hturn) hy

/-- The same where an event is published: what a listener does when it hears of it stands in the end. -/
theorem publishWithin_reaches {depth : Nat} {e : Event} {s : Subscription Listener}
    (hr : ∀ l, Keeps R (Listener.react book e l))
    (hrest : ∀ l w events v, Listener.react book e l w = (.ok events, v) →
      ∀ e' ∈ events, Keeps R (publishWithin book depth e'))
    (hP : ∀ u v, P u → R u v → P v) (hs : s ∈ w.session.bus.listeners e.kind)
    (hbus : ∀ u, R w u → u.session.bus = w.session.bus)
    (hreach : ∀ u, R w u → P (s.handler.react book e u).2)
    (h : publishWithin book (depth + 1) e w = (.ok n, v)) : P v := by
  have hrest (l : Listener) (events : List Event) (w v : World)
      (h : l.react book e w = (.ok events, v)) :
      Keeps R (events.forM fun e => do let _ ← publishWithin book depth e) :=
    Keeps.forM_of fun e' he' => (hrest l w events v h e' he').bind fun _ => Keeps.pure _
  rw [publishWithin_succ] at h
  obtain ⟨_, _, hsession, h⟩ := Steps.bind_eq_ok.mp h
  cases hsession
  refine deliver_reaches (fun t => ?_) hP hs (fun u hu => ?_) (fun u r v hu hv => ?_) (Std.Refl.refl w) h
  · refine (outcome_keeps (hr t.handler)).bind_of fun w r v h => ?_
    cases r with
    | error => exact Std.Refl.refl v
    | ok events => exact (hrest _ events w v (outcome_eq_ok h)).bind (fun _ => Keeps.pure _) v
  · rw [hbus u hu]
    exact List.any_eq_true.mpr ⟨s, (List.mem_filter.mp hs).1, by simp⟩
  · have hreach := hreach u hu
    obtain ⟨answer, x, hx, hv⟩ := Steps.bind_eq_ok.mp hv
    have hxu : (s.handler.react book e u).2 = x := by
      unfold outcome at hx
      split at hx <;> simp_all
    rw [hxu] at hreach
    cases answer with
    | error =>
      obtain ⟨-, rfl⟩ := Steps.pure_eq_ok.mp hv
      exact hreach
    | ok events =>
      exact hP x v hreach (((hrest _ events u x (outcome_eq_ok hx)).bind fun _ => Keeps.pure _).apply hv)

end Reaches

/-- What every reaction keeps, publishing keeps. -/
theorem publishWithin_keeps (hr : ∀ l e, Keeps R (Listener.react book e l)) (depth : Nat)
    (e : Event) : Keeps R (publishWithin book depth e) := by
  induction depth generalizing e with
  | zero => exact Keeps.stop _
  | succ depth ih => exact publishWithin_keeps_of (hr · e) fun _ _ _ _ _ e' _ => ih e'

theorem announce_keeps (hr : ∀ l e, Keeps R (Listener.react book e l)) (events : List Event) :
    Keeps R (announce book events) :=
  Keeps.forM (fun e => (publishWithin_keeps hr _ e).bind fun _ => Keeps.pure _) events

end Keeps

/-- The steps may stop, but they are not refused. -/
def NeverRefuses (x : Engine α) : Prop := StopsOnly (fun stop => ∀ e b, stop ≠ .refused e b) x

theorem gameId_neverRefuses : NeverRefuses gameId := fun w stop v h => by cases h

theorem outcome_stops {S S' : Stop → Prop} {x : Engine α} (h : StopsOnly S x)
    (hS : ∀ stop, S stop → (∀ e b, stop ≠ .refused e b) → S' stop) : StopsOnly S' (outcome x) := by
  intro w stop v hx
  unfold outcome at hx
  split at hx
  · cases hx
  · cases hx
  · next hcaught hs =>
    cases hx
    exact hS _ (h _ _ _ hs) fun e b he => hcaught e b (he ▸ rfl)

theorem deliver_stops {S : Stop → Prop} {call : Subscription Listener → Engine Bool}
    (hc : ∀ s, StopsOnly S (call s)) (subs : List (Subscription Listener)) :
    StopsOnly S (Bus.deliver isLive call subs) := by
  induction subs with
  | nil => exact StopsOnly.pure _
  | cons s rest ih =>
    rw [Bus.deliver_cons]
    refine (isLive_stopsOnly s.id).bind fun live => StopsOnly.bind ?_ fun _ =>
      ih.bind fun _ => StopsOnly.pure _
    cases live
    · exact StopsOnly.pure _
    · exact hc s

theorem outcome_neverRefuses (x : Engine α) : NeverRefuses (outcome x) :=
  outcome_stops (S := fun _ => True) (fun _ _ _ _ => trivial) fun _ _ h => h

theorem publishWithin_neverRefuses (book : Rulebook) (depth : Nat) (e : Event) :
    NeverRefuses (publishWithin book depth e) := by
  induction depth generalizing e with
  | zero =>
    intro w stop v h
    cases h
    simp
  | succ depth ih =>
    rw [publishWithin_succ]
    refine session_stopsOnly.bind fun _ => deliver_stops (fun s => ?_) _
    refine (outcome_neverRefuses _).bind fun r => ?_
    cases r with
    | error e => exact StopsOnly.pure _
    | ok events =>
      refine StopsOnly.bind (StopsOnly.forM (fun e => ?_) events) fun _ => StopsOnly.pure _
      exact (ih e).bind fun _ => StopsOnly.pure _

theorem announce_neverRefuses (book : Rulebook) (events : List Event) :
    NeverRefuses (announce book events) :=
  StopsOnly.forM
    (fun e => (publishWithin_neverRefuses book _ e).bind fun _ => StopsOnly.pure _) events

/-- Announcing is not refused, so what is refused is the writing before it. -/
theorem refused_of_announce {book : Rulebook} {x : Engine (List Event)} {w v : World} {e : Refusal}
    {restored : Bool}
    (h : (x >>= fun events => announce book events) w = (.error (.refused e restored), v)) :
    x w = (.error (.refused e restored), v) := by
  rcases Steps.bind_eq_error.mp h with h | ⟨events, u, -, h⟩
  · exact h
  · exact absurd rfl (announce_neverRefuses book events u _ v h e restored)

end Engine

end MarsRules
