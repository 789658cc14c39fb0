import MarsRules.Proofs.Refusals

/-! How publishing can end. Where the ranges are the right way round it ends well or runs out of
depth, and once it has ended well at some depth it ends the same way at every greater one. -/

namespace MarsRules

open Steps (StopsOnly)

namespace Engine

variable {α β : Type} {x y : Engine α}

/-- The second steps do what the first do wherever those are not stopped for want of depth. -/
def Extends (x y : Engine α) : Prop :=
  ∀ w r v, x w = (r, v) → r ≠ .error .tooDeep → y w = (r, v)

theorem Extends.refl (x : Engine α) : Extends x x := fun _ _ _ h _ => h

theorem Extends.trans {z : Engine α} (h : Extends x y) (h' : Extends y z) : Extends x z :=
  fun w r v hx hr => h' w r v (h w r v hx hr) hr

theorem Extends.bind {f g : α → Engine β} (h : Extends x y) (hf : ∀ a, Extends (f a) (g a)) :
    Extends (x >>= f) (y >>= g) := by
  intro w r v hx hr
  rcases hs : x w with ⟨stop | a, u⟩
  · rw [Steps.bind_apply_error hs] at hx
    cases hx
    exact Steps.bind_apply_error (h w _ _ hs fun he => hr (by cases he; rfl))
  · rw [Steps.bind_apply_ok hs] at hx
    rw [Steps.bind_apply_ok (h w _ _ hs (by simp))]
    exact hf a u r v hx hr

theorem Extends.forM {f g : α → Engine Unit} (h : ∀ a, Extends (f a) (g a)) (as : List α) :
    Extends (as.forM f) (as.forM g) := by
  induction as with
  | nil => exact .refl _
  | cons a rest ih => exact (h a).bind fun _ => ih

theorem deliver_extends {call call' : Subscription Listener → Engine Bool}
    (h : ∀ s, Extends (call s) (call' s)) (subs : List (Subscription Listener)) :
    Extends (Bus.deliver isLive call subs) (Bus.deliver isLive call' subs) := by
  induction subs with
  | nil => exact .refl _
  | cons s rest ih =>
    rw [Bus.deliver_cons, Bus.deliver_cons]
    refine (Extends.refl _).bind fun live => Extends.bind ?_ fun _ => ih.bind fun _ => .refl _
    cases live
    · exact .refl _
    · exact h s

theorem publishWithin_extends (book : Rulebook) (depth : Nat) (e : Event) :
    Extends (publishWithin book depth e) (publishWithin book (depth + 1) e) := by
  induction depth generalizing e with
  | zero =>
    intro w r v h hr
    cases h
    exact absurd rfl hr
  | succ depth ih =>
    rw [publishWithin_succ, publishWithin_succ]
    refine (Extends.refl _).bind fun s => deliver_extends (fun sub => ?_) _
    refine (Extends.refl _).bind fun reaction => ?_
    cases reaction with
    | error e => exact .refl _
    | ok events => exact (Extends.forM (fun e => (ih e).bind fun _ => .refl _) events).bind fun _ => .refl _

theorem publishWithin_extends_of_le (book : Rulebook) {depth deeper : Nat} (h : depth ≤ deeper)
    (e : Event) : Extends (publishWithin book depth e) (publishWithin book deeper e) := by
  induction h with
  | refl => exact .refl _
  | step _ ih => exact ih.trans (publishWithin_extends book _ e)

/-- How deep a rulebook lets events nest is for those who announce to say. -/
theorem publishWithin_depth (book : Rulebook) (n depth : Nat) (e : Event) :
    publishWithin { book with depth := n } depth e = publishWithin book depth e := by
  induction depth generalizing e with
  | zero => rfl
  | succ depth ih =>
    have hturn : takeTurn { book with depth := n } depth e = takeTurn book depth e := by
      funext sub
      unfold takeTurn
      simp only [ih]
      cases sub.handler <;> rfl
    rw [publishWithin_succ, publishWithin_succ, hturn]

theorem announce_depth (book : Rulebook) (depth : Nat) (events : List Event) :
    announce { book with depth } events =
      (events.forM fun e => do let _ ← publishWithin book depth e : Engine Unit) := by
  simp only [announce, publish, publishWithin_depth]

section Stops

variable {book : Rulebook} (hr : book.rules.Ordered)

theorem outcome_neverStops {S : Stop → Prop} (h : StopsOnly Stop.IsRefusal x) :
    StopsOnly S (outcome x) := by
  refine outcome_stops h fun stop hstop hcaught => ?_
  cases stop with
  | refused e restored => exact absurd rfl (hcaught e restored)
  | brokenRange | tooDeep => exact hstop.elim

include hr

theorem publishWithin_stops (depth : Nat) (e : Event) :
    StopsOnly (· = .tooDeep) (publishWithin book depth e) := by
  induction depth generalizing e with
  | zero =>
    intro w stop v h
    cases h
    rfl
  | succ depth ih =>
    rw [publishWithin_succ]
    refine session_stopsOnly.bind fun _ => deliver_stops (fun s => ?_) _
    refine (outcome_neverStops (Listener.react_stops hr e s.handler)).bind fun reaction => ?_
    cases reaction with
    | error e => exact StopsOnly.pure _
    | ok events =>
      refine StopsOnly.bind (StopsOnly.forM (fun e => ?_) events) fun _ => StopsOnly.pure _
      exact (ih e).bind fun _ => StopsOnly.pure _

/-- Events are announced to the end, if only the depth is great enough, or no depth is enough. -/
theorem announce_ends_or (events : List Event) (w : World) :
    (∃ depth u, ∀ deeper ≥ depth, announce { book with depth := deeper } events w = (.ok (), u)) ∨
      ∀ depth, (announce { book with depth } events w).1 = .error .tooDeep := by
  by_cases h : ∀ depth, (announce { book with depth } events w).1 = .error .tooDeep
  · exact .inr h
  · obtain ⟨depth, hd⟩ := Classical.not_forall.mp h
    rcases ha : announce { book with depth } events w with ⟨stop | _, u⟩
    · have hs : StopsOnly (· = .tooDeep) (announce { book with depth } events) := by
        rw [announce_depth]
        exact StopsOnly.forM (fun e => (publishWithin_stops hr depth e).bind fun _ => StopsOnly.pure _)
          events
      rw [ha] at hd
      exact absurd (congrArg Except.error (hs w stop u ha)) hd
    · refine .inl ⟨depth, u, fun deeper hdeeper => ?_⟩
      rw [announce_depth] at ha ⊢
      refine Extends.forM (fun e => ?_) events w _ _ ha (by simp)
      exact (publishWithin_extends_of_le book hdeeper e).bind fun _ => .refl _

end Stops

end Engine

/-- No effect waits for such an event. -/
def Event.Inert (e : Event) : Prop := ∀ c : Condition, c.isMetBy e = false

theorem Listener.react_inert {e : Event} (he : e.Inert) (book : Rulebook) (l : Listener) :
    StopsOnly Stop.IsRefusal (l.react book e) ∧
      ∀ w events v, l.react book e w = (.ok events, v) → events = [] := by
  have hsilent {α : Type} {x : Engine α} (hx : StopsOnly Stop.IsRefusal x) :
      StopsOnly Stop.IsRefusal (x >>= fun _ => pure ([] : List Event)) ∧
        ∀ w events v, (x >>= fun _ => pure ([] : List Event)) w = (.ok events, v) → events = [] := by
    refine ⟨hx.bind fun _ => StopsOnly.pure _, fun w events v h => ?_⟩
    obtain ⟨_, u, -, h⟩ := Steps.bind_eq_ok.mp h
    exact (Steps.pure_eq_ok.mp h).1.symm
  cases l with
  | recorder => exact hsilent (StopsOnly.change _)
  | forcedAction => exact hsilent (Engine.watchForced_stops book.catalog e)
  | effect owner effect =>
    have hfires (g : GameId) : effect.firesOn g e = false := by
      cases hc : effect.behavior.condition? <;> simp [CardEffect.firesOn, hc, he _]
    have hreact : (Listener.effect owner effect).react book e =
        Engine.gameId >>= fun _ => pure [] := by
      show effect.react book.rules owner e = _
      simp [CardEffect.react, hfires]
    rw [hreact]
    exact hsilent Engine.gameId_stops

theorem Engine.publishWithin_inert {book : Rulebook} {e : Event} (he : e.Inert) (depth : Nat) :
    StopsOnly (fun _ => False) (publishWithin book (depth + 1) e) := by
  rw [publishWithin_succ]
  refine session_stopsOnly.bind fun _ => deliver_stops (fun s => ?_) _
  obtain ⟨hstops, hnone⟩ := s.handler.react_inert he book
  intro w stop v h
  rcases Steps.bind_eq_error.mp h with h | ⟨reaction, u, hreact, h⟩
  · exact outcome_neverStops (S := fun _ => False) hstops w stop v h
  · cases reaction with
    | error e => cases h
    | ok events =>
      rw [hnone w events u (outcome_eq_ok hreact)] at h
      cases h

end MarsRules
