import MarsRules.Proofs.Posting
import MarsRules.Proofs.Subscribed

/-! A chronicle of a session: the outputs that were committed and the events that were published, in
their order. It is kept beside the world and changes nothing about it (`SessionCall.chronicle_eq`). -/

namespace MarsRules

open Steps (Keeps)

/-- Something that has happened in a session. -/
inductive Deed where
  /-- These outputs were committed. -/
  | committed (items : List LineItem)
  | published (e : Event)
  /-- A listener was refused, and not all that it had written was put back. -/
  | unrestored
deriving DecidableEq, Repr

/-- Steps that are chronicled. -/
abbrev Chronicled := Steps Stop (World × List Deed)

namespace Chronicled

variable {α β : Type}

def ofEngine (x : Engine α) : Chronicled α := fun (w, deeds) =>
  let (r, w) := x w
  (r, w, deeds)

instance : MonadLift Engine Chronicled := ⟨ofEngine⟩

def log (d : Deed) : Chronicled Unit := Steps.change fun (w, deeds) => (w, deeds ++ [d])

/-- Steps that commit the player's part of these outputs if they end well. -/
def committing (outputs : World → List LineItem) (x : Engine α) : Chronicled α := fun (w, deeds) =>
  match x w with
  | (.ok a, v) => (.ok a, v, deeds ++ [.committed (ownOutputs (outputs w))])
  | (.error stop, v) => (.error stop, v, deeds)

/-- The refusal as a value; whether everything was put back is noted. -/
def outcome (x : Chronicled α) : Chronicled (Except Refusal α) := fun s =>
  match x s with
  | (.ok a, s) => (.ok (.ok a), s)
  | (.error (.refused e true), s) => (.ok (.error e), s)
  | (.error (.refused e false), w, deeds) => (.ok (.error e), w, deeds ++ [.unrestored])
  | (.error stop, s) => (.error stop, s)

/-- Publishes an event as `Engine.publishWithin` does. -/
def publishWithin (book : Rulebook) : (depth : Nat) → Event → Chronicled Nat
  | 0, _ => Steps.stop .tooDeep
  | depth + 1, e => do
    log (.published e)
    let subs := (← Engine.session).bus.listeners e.kind
    let call (s : Subscription Listener) : Chronicled Bool := do
      match ← outcome (committing (fun w => s.handler.outputs w.game e) (s.handler.react book e)) with
      | .ok events =>
        events.forM fun e => do let _ ← publishWithin book depth e
        return true
      | .error _ => return false
    Bus.deliver (fun id => Engine.isLive id) call subs

def announce (book : Rulebook) (events : List Event) : Chronicled Unit :=
  events.forM fun e => do let _ ← publishWithin book book.depth e

/-- The first steps do what the second do, and add to the chronicle what they would to an empty one. -/
def Erases (x : Chronicled α) (y : Engine α) : Prop :=
  ∀ w deeds, x (w, deeds) = ((y w).1, (y w).2, deeds ++ (x (w, [])).2.2)

namespace Erases

variable {x : Chronicled α} {y : Engine α}

theorem ofEngine (y : Engine α) : Erases (ofEngine y) y := fun w deeds => by
  simp [Chronicled.ofEngine]

theorem apply (h : Erases x y) {s t : World × List Deed} {r : Except Stop α} (hx : x s = (r, t)) :
    y s.1 = (r, t.1) := by
  obtain ⟨w, deeds⟩ := s
  rw [h w deeds] at hx
  cases hx
  rfl

theorem pure (a : α) : Erases (Pure.pure a) (Pure.pure a) := fun w deeds => by simp

theorem stop (e : Stop) : Erases (Steps.stop e : Chronicled α) (Steps.stop e) := fun w deeds => by simp

theorem bind (hx : Erases x y) {f : α → Chronicled β} {g : α → Engine β}
    (hf : ∀ a, Erases (f a) (g a)) : Erases (x >>= f) (y >>= g) := by
  intro w deeds
  rw [Steps.bind_apply, Steps.bind_apply, Steps.bind_apply, hx w deeds, hx w []]
  rcases hy : y w with ⟨stop | a, v⟩
  · rfl
  · simp only [List.nil_append]
    rw [hf a v (deeds ++ _), hf a v (x (w, [])).2.2, List.append_assoc]

theorem forM {f : α → Chronicled Unit} {g : α → Engine Unit} (hf : ∀ a, Erases (f a) (g a))
    (as : List α) : Erases (as.forM f) (as.forM g) := by
  induction as with
  | nil => exact pure _
  | cons a rest ih => exact (hf a).bind fun _ => ih

end Erases

theorem log_erases (d : Deed) : Erases (log d) (Pure.pure ()) := fun w deeds => by simp [log]

section Committing

variable {outputs : World → List LineItem} {y : Engine α} {w v : World}

theorem committing_ok {a : α} (h : y w = (.ok a, v)) (deeds : List Deed) :
    committing outputs y (w, deeds) = (.ok a, v, deeds ++ [.committed (ownOutputs (outputs w))]) := by
  simp [committing, h]

theorem committing_error {stop : Stop} (h : y w = (.error stop, v)) (deeds : List Deed) :
    committing outputs y (w, deeds) = (.error stop, v, deeds) := by
  simp [committing, h]

theorem committing_eq_error {stop : Stop} {s t : World × List Deed}
    (h : committing outputs y s = (.error stop, t)) : y s.1 = (.error stop, t.1) ∧ t.2 = s.2 := by
  obtain ⟨w, deeds⟩ := s
  rcases hy : y w with ⟨stop' | a, v⟩
  · rw [committing_error hy] at h
    cases h
    exact ⟨rfl, rfl⟩
  · rw [committing_ok hy] at h
    cases h

end Committing

theorem committing_erases (outputs : World → List LineItem) (y : Engine α) :
    Erases (committing outputs y) y := by
  intro w deeds
  rcases h : y w with ⟨stop | a, v⟩
  · simp [committing_error h]
  · simp [committing_ok h]

theorem outcome_erases {x : Chronicled α} {y : Engine α} (h : Erases x y) :
    Erases (outcome x) (Engine.outcome y) := by
  intro w deeds
  unfold outcome Engine.outcome
  rw [h w deeds, h w []]
  rcases y w with ⟨stop | a, v⟩
  · cases stop with
    | refused e restored => cases restored <;> simp
    | brokenRange | tooDeep => simp
  · simp

theorem deliver_erases {call : Subscription Listener → Chronicled Bool}
    {call' : Subscription Listener → Engine Bool} (h : ∀ s, Erases (call s) (call' s))
    (subs : List (Subscription Listener)) :
    Erases (Bus.deliver (fun id => (Engine.isLive id : Chronicled Bool)) call subs)
      (Bus.deliver Engine.isLive call' subs) := by
  induction subs with
  | nil => exact .pure _
  | cons s rest ih =>
    rw [Bus.deliver_cons, Bus.deliver_cons]
    refine (Erases.ofEngine _).bind fun live => Erases.bind ?_ fun _ => ih.bind fun _ => .pure _
    cases live
    · exact .pure _
    · exact h s

theorem publishWithin_erases (book : Rulebook) (depth : Nat) (e : Event) :
    Erases (publishWithin book depth e) (Engine.publishWithin book depth e) := by
  induction depth generalizing e with
  | zero => exact .stop _
  | succ depth ih =>
    refine (log_erases (.published e)).bind (g := fun _ => Engine.publishWithin book (depth + 1) e) fun _ => ?_
    rw [Engine.publishWithin_succ]
    refine (Erases.ofEngine _).bind fun s => deliver_erases (fun sub => ?_) _
    refine (outcome_erases (committing_erases _ _)).bind fun r => ?_
    cases r with
    | error e => exact .pure _
    | ok events => exact (Erases.forM (fun e => (ih e).bind fun _ => .pure _) events).bind fun _ => .pure _

theorem announce_erases (book : Rulebook) (events : List Event) :
    Erases (announce book events) (Engine.announce book events) :=
  .forM (fun e => (publishWithin_erases book _ e).bind fun _ => .pure _) events

end Chronicled

/-- Records the corporation that a player chooses. -/
def Engine.chooseCorporation (catalog : Catalog) (p : PlayerId) (id : CardId) : Engine Card := do
  let card ← findCard catalog id
  card.checkCorporation
  (← readPlayer p).checkUndecided
  update p (.corporation (some card.id))
  return card

theorem StepLaw.chooseCorporation (L : StepLaw) {p : PlayerId}
    (hcorporation : ∀ c, L.holds (Engine.update p (.corporation c))) (catalog : Catalog) (id : CardId) :
    L.holds (Engine.chooseCorporation catalog p id) :=
  L.bind (L.findCard _ _) fun _ => L.bind (L.ofExcept _) fun _ => L.bind (L.readPlayer p) fun _ =>
    L.bind (L.ofExcept _) fun _ => L.bind (hcorporation _) fun _ => L.pure _

namespace Engine

variable {catalog : Catalog} {p : PlayerId} {id : CardId} {w v : World}

theorem chooseCorporation_ok {card : Card} (h : chooseCorporation catalog p id w = (.ok card, v)) :
    catalog.find? id = some card := by
  obtain ⟨card', w₁, hcard, h⟩ := Steps.bind_eq_ok.mp h
  obtain ⟨_, w₂, -, h⟩ := Steps.bind_eq_ok.mp h
  obtain ⟨_, w₃, -, h⟩ := Steps.bind_eq_ok.mp h
  obtain ⟨_, w₄, -, h⟩ := Steps.bind_eq_ok.mp h
  obtain ⟨_, w₅, -, h⟩ := Steps.bind_eq_ok.mp h
  obtain ⟨rfl, -⟩ := Steps.pure_eq_ok.mp h
  exact findCard_ok hcard

theorem chooseCorporation_level (catalog : Catalog) (p : PlayerId) (id : CardId) :
    Keeps World.Level (chooseCorporation catalog p id) :=
  (StepLaw.keeps World.Level World.Alike.level).chooseCorporation
    (fun _ => update_level (by simp [PlayerField.write])) catalog id

theorem advanceGeneration_level : Keeps World.Level advanceGeneration :=
  (StepLaw.keeps World.Level World.Alike.level).advanceGeneration
    (fun _ => updateGame_level fun _ => rfl)
    (fun {g} _ w => (onStore_alike (Store.readRoster_alike g) w).level)
    fun _ _ => update_level (by simp [PlayerField.write])

theorem shutdown_level : Keeps World.Level shutdown := by
  intro w
  have hgame : w.session.close.game = w.session.game := by
    unfold Session.close
    split <;> rfl
  show Ledger.mk ((w.records.game? w.session.close.game).map _ |>.getD _)
    (wrapInt32 (w.records.ratings w.session.close.game)) = _
  rw [hgame]
  rfl

end Engine

namespace Operation

variable (book : Rulebook) (p : PlayerId)

/-- Everything of a call before its announcements; gives the events to announce. -/
def commit : Operation → Engine (List Event)
  | selectCorporation id => do
    let card ← Engine.chooseCorporation book.catalog p id
    (Engine.commitCard book.rules p card none none).orElse (Engine.update p (.corporation none))
  | play r => Engine.commitPlay book p r
  | useAction card index choice target => Engine.commitUse book.rules p card index choice target
  | place c => return (← Engine.commitPlacement book.rules p c).2
  | confirmDraw picked => return [← Engine.commitDraw p picked]

/-- What a call does once its events are announced. -/
def rest : Operation → Engine Unit
  | selectCorporation id => match (book.catalog.find? id).bind (·.forcedAction?) with
    | some forced => Engine.update p (.forced (some forced))
    | none => return
  | _ => return

/-- The outputs that a call commits. -/
def outputs (w : World) : Operation → List LineItem
  | selectCorporation id => (book.catalog.find? id).elim [] (·.gains none)
  | play r => (book.catalog.find? r.card).elim [] (·.gains r.choice)
  | useAction card index choice _ =>
    ((w.player? p).bind (·.action? card index)).elim [] (·.behavior.outputsWith choice)
  | place _ => ((w.player? p).bind (·.tileOffer)).elim [] (·.raised)
  | confirmDraw _ => []

theorem run_eq (op : Operation) : op.run book p = op.commit book p >>= fun events =>
    Engine.announce book events >>= fun _ => op.rest book p := by
  cases op with
  | selectCorporation id =>
    funext w
    simp only [run, Engine.selectCorporation, commit, Engine.chooseCorporation, rest, bind_assoc, pure_bind]
    rcases hcard : Engine.findCard book.catalog id w with ⟨stop | card, v⟩
    · simp only [Steps.bind_apply_error hcard]
    · cases hforced : card.forcedAction? <;>
        simp only [Steps.bind_apply_ok hcard, Engine.findCard_ok hcard, Option.bind_some, hforced]
  | play | useAction | confirmDraw =>
    simp only [run, commit, rest, bind_assoc, pure_bind, bind_pure_unit]
    rfl
  | place c =>
    simp only [run, Engine.place, commit, rest, bind_assoc, pure_bind, bind_pure_unit]

variable {book p} {op : Operation} {w v : World}

theorem commit_posted {events : List Event} (h : op.commit book p w = (.ok events, v)) :
    World.Posted book.rules (op.outputs book p w) events w v := by
  cases op with
  | selectCorporation id =>
    obtain ⟨card, u, hu, h⟩ := Steps.bind_eq_ok.mp h
    rw [outputs, Engine.chooseCorporation_ok hu]
    exact .after ((Engine.chooseCorporation_level _ _ _).apply hu)
      (Engine.commitCard_posted (Engine.orElse_eq_ok.mp h))
  | play r =>
    obtain ⟨card, hcard, hposted⟩ := Engine.commitPlay_posted h
    rw [outputs, hcard]
    exact hposted
  | useAction card index choice target =>
    obtain ⟨player, action, hp, haction, hposted⟩ := Engine.commitUse_posted h
    rw [outputs, hp, Option.bind_some, haction]
    exact hposted
  | place c =>
    obtain ⟨⟨bonus, events'⟩, u, hu, h⟩ := Steps.bind_eq_ok.mp h
    obtain ⟨rfl, rfl⟩ := Steps.pure_eq_ok.mp h
    obtain ⟨player, offer, hp, hoffer, hposted⟩ := Engine.commitPlacement_posted hu
    rw [outputs, hp, Option.bind_some, hoffer]
    exact hposted
  | confirmDraw picked =>
    obtain ⟨e, u, hu, h⟩ := Steps.bind_eq_ok.mp h
    obtain ⟨rfl, rfl⟩ := Steps.pure_eq_ok.mp h
    have hlevel : World.Level w u := (Engine.commitDraw_level p picked).apply hu
    have hnone : ∀ e' ∈ [e], ∀ q, e'.move? q = none := fun e' he q => by
      rw [List.mem_singleton.mp he]
      exact Engine.commitDraw_move hu q
    exact (hlevel.posted book.rules).append hnone

theorem commit_level {e : Refusal} (h : op.commit book p w = (.error (.refused e true), v)) :
    World.Level w v := by
  cases op with
  | selectCorporation id =>
    rcases Steps.bind_eq_error.mp h with h | ⟨card, u, hu, h⟩
    · exact (Engine.chooseCorporation_level _ _ _).apply h
    · obtain ⟨x, hx, hback⟩ := Engine.orElse_eq_restored h
      have hchosen : World.Level w u := (Engine.chooseCorporation_level _ _ _).apply hu
      have hput : World.Level x v := (Engine.update_level (by simp [PlayerField.write])).apply hback
      have hx := (Engine.commitCard_reverts book.rules p card none none u e x hx).level
      exact Trans.trans (Trans.trans hchosen hx) hput
  | play r => exact (Engine.commitPlay_reverts book p r w e v h).level
  | useAction card index choice target =>
    exact (Engine.commitUse_reverts book.rules p card index choice target w e v h).level
  | place c =>
    rcases Steps.bind_eq_error.mp h with h | ⟨_, u, -, h⟩
    · exact (Engine.commitPlacement_reverts book.rules p c w e v h).level
    · simp at h
  | confirmDraw picked =>
    rcases Steps.bind_eq_error.mp h with h | ⟨_, u, -, h⟩
    · exact (Engine.commitDraw_level p picked).apply h
    · simp at h

theorem rest_level (op : Operation) : Keeps World.Level (op.rest book p) := by
  cases op with
  | selectCorporation id =>
    dsimp only [rest]
    split
    · exact Engine.update_level (by simp [PlayerField.write])
    · exact Keeps.pure _
  | play | useAction | place | confirmDraw => exact Keeps.pure _

end Operation

/-- What a session can be asked to do. -/
inductive SessionCall where
  | act (p : PlayerId) (op : Operation)
  | canPlay (p : PlayerId) (r : PlayRequest)
  | setTurn (p : Option PlayerId)
  | setPhase (phase : GamePhase)
  | advanceGeneration
  | shutdown

namespace SessionCall

variable (book : Rulebook)

def run : SessionCall → Engine Unit
  | act p op => op.run book p
  | canPlay p r => Engine.canPlay book p r
  | setTurn p => Engine.setTurn p
  | setPhase phase => Engine.setPhase book phase
  | advanceGeneration => do let _ ← Engine.advanceGeneration
  | shutdown => Engine.shutdown

/-- Everything of a call before its announcements; gives the events to announce. -/
def commit : SessionCall → Engine (List Event)
  | act p op => op.commit book p
  | canPlay p r => do Engine.canPlay book p r; return []
  | setTurn p => do Engine.setTurn p; return []
  | setPhase phase => do
    let game ← Engine.readGame
    Engine.updateGame (.phase phase)
    return [.phaseChanged { game := ← Engine.gameId, before := game.phase, after := phase }]
  | advanceGeneration => do let _ ← Engine.advanceGeneration; return []
  | shutdown => do Engine.shutdown; return []

def rest : SessionCall → Engine Unit
  | act p op => op.rest book p
  | _ => return

def outputs (w : World) : SessionCall → List LineItem
  | act p op => op.outputs book p w
  | _ => []

theorem run_eq_commit (c : SessionCall) : c.run book = c.commit book >>= fun events =>
    Engine.announce book events >>= fun _ => c.rest book := by
  cases c with
  | act p op => exact op.run_eq book p
  | canPlay | setTurn | advanceGeneration | shutdown =>
    have hnone : Engine.announce book [] = pure () := rfl
    simp only [run, commit, rest, bind_assoc, pure_bind, hnone, bind_pure_unit]
  | setPhase phase =>
    simp only [run, Engine.setPhase, commit, rest, bind_assoc, pure_bind, bind_pure_unit]

/-- The same as `run`, with a chronicle. -/
def chronicle (c : SessionCall) : Chronicled Unit := do
  let events ← Chronicled.committing (c.outputs book) (c.commit book)
  Chronicled.announce book events
  c.rest book

/-- What happens in the course of a call. -/
def deeds (c : SessionCall) (w : World) : List Deed := (c.chronicle book (w, [])).2.2

variable {book} {c : SessionCall} {w v : World}

theorem commit_level_of_ne (hc : ∀ p op, c ≠ act p op) : Keeps World.Level (c.commit book) := by
  cases c with
  | act p op => exact absurd rfl (hc p op)
  | canPlay p r =>
    refine Keeps.bind (fun w => ?_) fun _ => Keeps.pure _
    exact ((Engine.checkPlay_alike book p r).bind (fun _ => Keeps.pure _) w).level
  | setTurn p => exact (Engine.updateGame_level fun _ => rfl).bind fun _ => Keeps.pure _
  | setPhase phase =>
    refine Keeps.bind (fun w => (Engine.readGame_alike w).level) fun game => ?_
    refine (Engine.updateGame_level fun _ => rfl).bind fun _ => ?_
    exact Keeps.bind (fun w => (Engine.gameId_alike w).level) fun _ => Keeps.pure _
  | advanceGeneration => exact Engine.advanceGeneration_level.bind fun _ => Keeps.pure _
  | shutdown => exact Engine.shutdown_level.bind fun _ => Keeps.pure _

theorem move_of_ne {events : List Event} (hc : ∀ p op, c ≠ act p op)
    (h : c.commit book w = (.ok events, v)) : ∀ e ∈ events, ∀ q, e.move? q = none := by
  cases c with
  | act p op => exact absurd rfl (hc p op)
  | canPlay | setTurn | advanceGeneration | shutdown =>
    obtain ⟨_, u, -, h⟩ := Steps.bind_eq_ok.mp h
    obtain ⟨rfl, -⟩ := Steps.pure_eq_ok.mp h
    intro e he
    cases he
  | setPhase phase =>
    obtain ⟨game, u, -, h⟩ := Steps.bind_eq_ok.mp h
    obtain ⟨_, u, -, h⟩ := Steps.bind_eq_ok.mp h
    obtain ⟨g, u, -, h⟩ := Steps.bind_eq_ok.mp h
    obtain ⟨rfl, -⟩ := Steps.pure_eq_ok.mp h
    intro e he q
    rw [List.mem_singleton.mp he]
    rfl

theorem commit_posted {events : List Event} (h : c.commit book w = (.ok events, v)) :
    World.Posted book.rules (c.outputs book w) events w v := by
  have hother (hc : ∀ p op, c ≠ act p op) : World.Posted book.rules [] events w v :=
    (World.Level.posted ((commit_level_of_ne hc).apply h) book.rules).append (move_of_ne hc h)
  cases c with
  | act p op => exact Operation.commit_posted h
  | canPlay | setTurn | setPhase | advanceGeneration | shutdown => exact hother nofun

theorem commit_level {e : Refusal} (h : c.commit book w = (.error (.refused e true), v)) :
    World.Level w v := by
  have hother (hc : ∀ p op, c ≠ act p op) : World.Level w v := (commit_level_of_ne hc).apply h
  cases c with
  | act p op => exact Operation.commit_level h
  | canPlay | setTurn | setPhase | advanceGeneration | shutdown => exact hother nofun

theorem rest_level (c : SessionCall) : Keeps World.Level (c.rest book) := by
  cases c with
  | act p op => exact op.rest_level
  | canPlay | setTurn | setPhase | advanceGeneration | shutdown => exact Keeps.pure _

theorem chronicle_eq (c : SessionCall) (w : World) (deeds : List Deed) :
    c.chronicle book (w, deeds) = ((c.run book w).1, (c.run book w).2, deeds ++ c.deeds book w) := by
  rw [c.run_eq_commit]
  have h : (c.chronicle book).Erases _ := (Chronicled.committing_erases (c.outputs book) (c.commit book)).bind
    fun events => (Chronicled.announce_erases book events).bind fun _ => .ofEngine (c.rest book)
  exact h w deeds

end SessionCall

/-- The calls made in a session so far, each of them finished, and all that happened in their course.
Calls on the store can fail at any time, as long as everything is put back that was noted. -/
inductive Run (book : Rulebook) (w₀ : World) : List Deed → World → Prop
  | start : Run book w₀ [] w₀
  | call {deeds : List Deed} {w : World} (h : Run book w₀ deeds w) (outages : Call → List Outage)
      (c : SessionCall) (finished : Finished (c.run book (w.withOutages outages)).1)
      (restored : .unrestored ∉ c.deeds book (w.withOutages outages)) :
      Run book w₀ (deeds ++ c.deeds book (w.withOutages outages)) (c.run book (w.withOutages outages)).2

end MarsRules
