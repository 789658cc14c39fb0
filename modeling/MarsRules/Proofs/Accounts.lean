import Mathlib.Data.List.Perm.Basic
import MarsRules.Proofs.Chronicle

/-! What has happened in a session accounts for where its ledger stands, and tells of each move of a
parameter once. In the course of a call an event may be behind the move that it tells of, so the
count is kept with the events that are owed. -/

namespace MarsRules

open Steps (Keeps)

/-- The outputs that were committed, commit by commit. -/
def commitsOf (deeds : List Deed) : List (List LineItem) :=
  deeds.filterMap fun
    | .committed items => some items
    | _ => none

def eventsOf (deeds : List Deed) : List Event :=
  deeds.filterMap fun
    | .published e => some e
    | _ => none

theorem commitsOf_append (deeds more : List Deed) :
    commitsOf (deeds ++ more) = commitsOf deeds ++ commitsOf more := List.filterMap_append

theorem eventsOf_append (deeds more : List Deed) :
    eventsOf (deeds ++ more) = eventsOf deeds ++ eventsOf more := List.filterMap_append

theorem total_perm {ns ms : List Int} (h : ns.Perm ms) : total ns = total ms := by
  induction h with
  | nil => rfl
  | cons n _ ih => simp [total, ih]
  | swap n m rest => simp only [total]; omega
  | trans _ _ ih ih' => exact ih.trans ih'

namespace Ledger

variable {rules : Rules} {q : GlobalParameter}

/-- The ledger once the outputs of these commits are applied, one commit after the other. -/
def enterAll (rules : Rules) (l : Ledger) (commits : List (List LineItem)) : Ledger :=
  commits.foldl (enter rules) l

/-- The moves of a parameter that these commits make, one after the other. -/
def moves (rules : Rules) (q : GlobalParameter) : Ledger → List (List LineItem) → List (Int × Int)
  | _, [] => []
  | l, items :: rest =>
    moveFrom (l.parameters.get q) ((l.enter rules items).parameters.get q) ++
      moves rules q (l.enter rules items) rest

theorem enterAll_append (l : Ledger) (commits more : List (List LineItem)) :
    l.enterAll rules (commits ++ more) = (l.enterAll rules commits).enterAll rules more :=
  List.foldl_append

theorem moves_append (l : Ledger) (commits more : List (List LineItem)) :
    l.moves rules q (commits ++ more) =
      l.moves rules q commits ++ (l.enterAll rules commits).moves rules q more := by
  induction commits generalizing l with
  | nil => rfl
  | cons items rest ih => simp [moves, ih, enterAll]

theorem total_moveFrom (before after : Int) :
    total ((moveFrom before after).map fun m => m.2 - m.1) = after - before := by
  unfold moveFrom
  split
  · next h => simp [total, h]
  · simp [total]

theorem total_moves (l : Ledger) (commits : List (List LineItem)) :
    total ((l.moves rules q commits).map fun m => m.2 - m.1) =
      (l.enterAll rules commits).parameters.get q - l.parameters.get q := by
  induction commits generalizing l with
  | nil => simp [moves, enterAll, total]
  | cons items rest ih =>
    have hrest : total ((moves rules q (l.enter rules items) rest).map fun m => m.2 - m.1) =
        (l.enterAll rules (items :: rest)).parameters.get q - (l.enter rules items).parameters.get q := ih _
    rw [moves, List.map_append, total_append, total_moveFrom, hrest]
    omega

end Ledger

/-- Every parameter is in its range. -/
def Parameters.Within (rules : Rules) (v : Parameters) : Prop :=
  ∀ q, (rules.range q).min ≤ v.get q ∧ v.get q ≤ (rules.range q).max

theorem Ledger.enter_within {rules : Rules} (hr : rules.Ordered) {l : Ledger}
    (h : l.parameters.Within rules) (items : List LineItem) :
    (l.enter rules items).parameters.Within rules := by
  intro q
  show _ ≤ (l.parameters.moved rules items).get q ∧ (l.parameters.moved rules items).get q ≤ _
  rw [Parameters.get_moved]
  split
  · exact h q
  · have := hr q
    simp only [Rules.moved]
    omega

theorem Ledger.enterAll_within {rules : Rules} (hr : rules.Ordered) {l : Ledger}
    (h : l.parameters.Within rules) (commits : List (List LineItem)) :
    (l.enterAll rules commits).parameters.Within rules := by
  induction commits generalizing l with
  | nil => exact h
  | cons items rest ih => exact ih (enter_within hr h items)

abbrev Owed := GlobalParameter → Int × Int → Int

namespace Owed

def nothing : Owed := fun _ _ => 0

def of (events : List Event) : Owed := fun q m => (movesOf q events).count m

/-- The events are published already, and the moves that they tell of are not counted. -/
def ahead (events : List Event) : Owed := fun q m => -of events q m

theorem of_add_ahead (events : List Event) (q : GlobalParameter) (m : Int × Int) :
    of events q m + ahead events q m = nothing q m := Int.add_right_neg _

/-- Steps that are refused leave nothing owed. -/
def unlessRefused : Except Refusal (List Event) → Owed
  | .ok events => of events
  | .error _ => nothing

theorem ahead_cons (e : Event) (events : List Event) (q : GlobalParameter) (m : Int × Int) :
    ahead [e] q m + ahead events q m = ahead (e :: events) q m := by
  have h : movesOf q (e :: events) = movesOf q [e] ++ movesOf q events := movesOf_append q [e] events
  simp only [ahead, of, h, List.count_append]
  omega

end Owed

/-- All that is different in the ledger has been committed, and each move is told of once, but for
the events that are owed. -/
structure Accounts (rules : Rules) (owed : Owed) (deeds : List Deed) (w v : World) : Prop where
  ledger : v.ledger = w.ledger.enterAll rules (commitsOf deeds)
  told : ∀ q m, ((movesOf q (eventsOf deeds)).count m : Int) + owed q m =
    (w.ledger.moves rules q (commitsOf deeds)).count m

section Accounts

variable {rules : Rules} {owed due both : Owed} {deeds more : List Deed} {w v u : World}

theorem World.Level.accounts (h : Level w v) : Accounts rules .nothing [] w v :=
  ⟨h, fun _ _ => rfl⟩

theorem Accounts.append (h : Accounts rules owed deeds w v) (h' : Accounts rules due more v u)
    (hb : ∀ q m, owed q m + due q m = both q m) : Accounts rules both (deeds ++ more) w u := by
  refine ⟨?_, fun q m => ?_⟩
  · rw [h'.ledger, h.ledger, commitsOf_append, Ledger.enterAll_append]
  · have htold := h.told q m
    have htold' := h'.told q m
    have hboth := hb q m
    rw [h.ledger] at htold'
    rw [commitsOf_append, eventsOf_append, movesOf_append, Ledger.moves_append, List.count_append,
      List.count_append]
    omega

theorem World.Posted.accounts {items : List LineItem} {events : List Event}
    (h : Posted rules items events w v) :
    Accounts rules (.of events) [.committed (ownOutputs items)] w v := by
  have hledger : v.ledger = w.ledger.enter rules (ownOutputs items) := by
    rw [h.ledger, Ledger.enter_ownOutputs]
  refine ⟨hledger, fun q m => ?_⟩
  have hmoves : w.ledger.moves rules q [ownOutputs items] = movesOf q events := by
    rw [h.events, Ledger.moves, Ledger.moves, ← hledger, List.append_nil]
    rfl
  show (0 : Int) + _ = (w.ledger.moves rules q [ownOutputs items]).count m
  rw [hmoves, Int.zero_add]
  rfl

end Accounts

/-- What the chronicle has more of accounts for what is different, if all was restored. -/
def Follows (rules : Rules) (owed : Owed) (s t : World × List Deed) : Prop :=
  ∃ new, t.2 = s.2 ++ new ∧ (.unrestored ∉ new → Accounts rules owed new s.1 t.1)

theorem Follows.trans {rules : Rules} {owed due both : Owed} {s t u : World × List Deed}
    (h : Follows rules owed s t) (h' : Follows rules due t u)
    (hb : ∀ q m, owed q m + due q m = both q m) : Follows rules both s u := by
  obtain ⟨new, ht, hnew⟩ := h
  obtain ⟨more, hu, hmore⟩ := h'
  refine ⟨new ++ more, by rw [hu, ht, List.append_assoc], fun hall => ?_⟩
  rw [List.mem_append, not_or] at hall
  exact (hnew hall.1).append (hmore hall.2) hb

theorem World.Level.follows {rules : Rules} {w v : World} (h : Level w v) (deeds : List Deed) :
    Follows rules .nothing (w, deeds) (v, deeds) :=
  ⟨[], (List.append_nil _).symm, fun _ => h.accounts⟩

/-- Steps that end well are accounted for, but for what they leave owed. -/
def Owes {α : Type} (rules : Rules) (owed : α → Owed) (x : Chronicled α) : Prop :=
  ∀ s a t, x s = (.ok a, t) → Follows rules (owed a) s t

abbrev OwesNothing {α : Type} (rules : Rules) (x : Chronicled α) : Prop :=
  Owes rules (fun _ => .nothing) x

section Owes

variable {α β : Type} {rules : Rules} {owed : α → Owed} {due both : β → Owed} {x : Chronicled α}
  {f : α → Chronicled β}

theorem Owes.bind (hx : Owes rules owed x) (hf : ∀ a, Owes rules due (f a))
    (hb : ∀ a b q m, owed a q m + due b q m = both b q m) : Owes rules both (x >>= f) := by
  intro s b u h
  obtain ⟨a, t, ht, hu⟩ := Steps.bind_eq_ok.mp h
  exact (hx s a t ht).trans (hf a t b u hu) (hb a b)

theorem OwesNothing.bind (hx : OwesNothing rules x) (hf : ∀ a, Owes rules due (f a)) :
    Owes rules due (x >>= f) := Owes.bind hx hf fun _ _ _ _ => Int.zero_add _

theorem follows_ofEngine {y : Engine α} (hy : Keeps World.Level y) {s t : World × List Deed}
    {r : Except Stop α} (h : Chronicled.ofEngine y s = (r, t)) : Follows rules .nothing s t := by
  obtain ⟨w, deeds⟩ := s
  obtain rfl : ((y w).2, deeds) = t := congrArg Prod.snd h
  exact (hy w).follows deeds

theorem Owes.bind_owesNothing {o : Owed} (hx : Owes rules (fun _ => o) x)
    (hf : ∀ a, OwesNothing rules (f a)) : Owes rules (fun _ => o) (x >>= f) :=
  hx.bind hf fun _ _ _ _ => Int.add_zero _

theorem OwesNothing.ofEngine {y : Engine α} (hy : Keeps World.Level y) :
    OwesNothing rules (Chronicled.ofEngine y) := fun _ _ _ h => follows_ofEngine hy h

theorem OwesNothing.pure (a : α) : OwesNothing rules (Pure.pure a : Chronicled α) :=
  .ofEngine (y := Pure.pure a) (Keeps.pure a)

end Owes

namespace Chronicled

variable {rules : Rules}

theorem log_owes (e : Event) : Owes rules (fun _ => .ahead [e]) (log (.published e)) := by
  intro (w, deeds) _ t h
  cases h
  exact ⟨[.published e], rfl, fun _ => ⟨rfl, Owed.of_add_ahead [e]⟩⟩

section Committing

variable {outputs : World → List LineItem} {x : Engine (List Event)}
  (hok : ∀ {w events v}, x w = (.ok events, v) → World.Posted rules (outputs w) events w v)
include hok

theorem committing_owes : Owes rules .of (committing outputs x) := by
  intro (w, deeds) events t h
  rcases hx : x w with ⟨stop | events', v⟩
  · rw [committing_error hx] at h
    cases h
  · rw [committing_ok hx] at h
    cases h
    exact ⟨_, rfl, fun _ => (hok hx).accounts⟩

theorem outcome_committing_owes
    (hrefused : ∀ {w e v}, x w = (.error (.refused e true), v) → World.Level w v) :
    Owes rules .unlessRefused (outcome (committing outputs x)) := by
  intro (w, deeds) r t h
  unfold outcome at h
  rcases hx : x w with ⟨stop | events, v⟩
  · rw [committing_error hx] at h
    rcases stop with ⟨e, _ | _⟩ | _ | _ <;> cases h
    · exact ⟨[.unrestored], rfl, fun hall => absurd (List.mem_singleton.mpr rfl) hall⟩
    · exact (hrefused hx).follows deeds
  · have hc : committing outputs x (w, deeds) = _ := committing_ok hx deeds
    rw [hc] at h
    cases h
    exact committing_owes hok _ _ _ hc

end Committing

theorem publishAll_owes {publish : Event → Chronicled Nat}
    (hp : ∀ e, Owes rules (fun _ => .ahead [e]) (publish e)) (events : List Event) :
    Owes rules (fun _ => .ahead events)
      (events.forM fun e => do let _ ← publish e) := by
  induction events with
  | nil => exact OwesNothing.pure ()
  | cons e rest ih =>
    have hfirst : Owes rules (fun _ => .ahead [e]) (do let _ ← publish e) :=
      (hp e).bind_owesNothing fun _ => OwesNothing.pure ()
    exact hfirst.bind (fun _ => ih) fun _ _ => Owed.ahead_cons e rest

theorem deliver_owesNothing {call : Subscription Listener → Chronicled Bool}
    (hc : ∀ s, OwesNothing rules (call s)) (subs : List (Subscription Listener)) :
    OwesNothing rules (Bus.deliver (fun id => (Engine.isLive id : Chronicled Bool)) call subs) := by
  induction subs with
  | nil => exact OwesNothing.pure 0
  | cons s rest ih =>
    rw [Bus.deliver_cons]
    have hlive : OwesNothing rules (ofEngine (Engine.isLive s.id)) :=
      .ofEngine (Engine.isLive_keeps s.id)
    refine hlive.bind fun live => OwesNothing.bind ?_ fun _ => ?_
    · cases live
      · exact OwesNothing.pure false
      · exact hc s
    · exact OwesNothing.bind ih fun _ => OwesNothing.pure _

theorem publishWithin_owes (book : Rulebook) (depth : Nat) (e : Event) :
    Owes book.rules (fun _ => .ahead [e]) (publishWithin book depth e) := by
  induction depth generalizing e with
  | zero =>
    intro s n t h
    cases h
  | succ depth ih =>
    refine (log_owes e).bind_owesNothing fun _ => ?_
    have hsession : OwesNothing book.rules (ofEngine Engine.session) := .ofEngine Engine.session_keeps
    refine hsession.bind fun s => deliver_owesNothing (fun sub => ?_) _
    have hreaction : Owes book.rules .unlessRefused (outcome (committing
        (fun w => sub.handler.outputs w.game e) (sub.handler.react book e))) :=
      outcome_committing_owes Listener.react_posted Listener.react_level
    intro s b t h
    obtain ⟨r, u, hu, h⟩ := Steps.bind_eq_ok.mp h
    cases r with
    | error refusal =>
      obtain ⟨rfl, rfl⟩ := Steps.pure_eq_ok.mp h
      exact hreaction _ _ _ hu
    | ok events =>
      obtain ⟨_, u', hu', h⟩ := Steps.bind_eq_ok.mp h
      obtain ⟨rfl, rfl⟩ := Steps.pure_eq_ok.mp h
      -- what the listener has committed is owed, and the events it gives rise to make good for it
      exact (hreaction _ _ _ hu).trans (publishAll_owes ih events _ _ _ hu') (Owed.of_add_ahead events)

theorem announce_owes (book : Rulebook) (events : List Event) :
    Owes book.rules (fun _ => .ahead events) (announce book events) :=
  publishAll_owes (publishWithin_owes book _) events

end Chronicled

namespace SessionCall

variable {book : Rulebook} {c : SessionCall} {w : World}

theorem chronicle_follows {s t : World × List Deed} {result : Except Stop Unit}
    (h : c.chronicle book s = (result, t)) (hf : Finished result) :
    Follows book.rules .nothing s t := by
  have hcommit : Owes book.rules .of (Chronicled.committing (c.outputs book) (c.commit book)) :=
    Chronicled.committing_owes commit_posted
  have hannounce (events : List Event) := Chronicled.announce_owes book events
  have hboth {events : List Event} {u v : World × List Deed}
      (hu : Chronicled.committing (c.outputs book) (c.commit book) s = (.ok events, u))
      (hv : Chronicled.announce book events u = (.ok (), v)) : Follows book.rules .nothing s v :=
    (hcommit s events u hu).trans (hannounce events u () v hv) (Owed.of_add_ahead events)
  cases result with
  | ok =>
    obtain ⟨events, u, hu, h⟩ := Steps.bind_eq_ok.mp h
    obtain ⟨_, v, hv, h⟩ := Steps.bind_eq_ok.mp h
    exact (hboth hu hv).trans (follows_ofEngine c.rest_level h) fun _ _ => rfl
  | error stop =>
    obtain ⟨e, rfl⟩ : ∃ e, stop = .refused e true := hf stop rfl
    rcases Steps.bind_eq_error.mp h with h | ⟨events, u, hu, h⟩
    · obtain ⟨hrefused, hsame⟩ := Chronicled.committing_eq_error h
      exact ⟨[], by rw [hsame, List.append_nil], fun _ => (commit_level hrefused).accounts⟩
    · rcases Steps.bind_eq_error.mp h with h | ⟨_, v, hv, h⟩
      · have hrefused := (Chronicled.announce_erases book events).apply h
        exact absurd rfl (Engine.announce_neverRefuses book events _ _ _ hrefused e true)
      · exact (hboth hu hv).trans (follows_ofEngine c.rest_level h) fun _ _ => rfl

theorem accounts (c : SessionCall) (finished : Finished (c.run book w).1)
    (restored : .unrestored ∉ c.deeds book w) :
    Accounts book.rules .nothing (c.deeds book w) w (c.run book w).2 := by
  obtain ⟨new, hnew, haccounts⟩ := chronicle_follows (c.chronicle_eq w []) finished
  obtain rfl : c.deeds book w = new := by simpa using hnew
  exact haccounts restored

end SessionCall

namespace Run

variable {book : Rulebook} {w₀ w : World} {deeds : List Deed}

theorem accounts (h : Run book w₀ deeds w) : Accounts book.rules .nothing deeds w₀ w := by
  induction h with
  | start => exact World.Level.accounts rfl
  | @call deeds w h outages c finished restored ih =>
    have hsame : Accounts book.rules .nothing deeds w₀ (w.withOutages outages) := ⟨ih.ledger, ih.told⟩
    exact hsame.append (c.accounts finished restored) fun _ _ => rfl

/-- Whatever is called, by whom and with what failures: the parameters stay in their ranges, and the
events that were published tell of every move that was committed, of each once and of no other. -/
theorem parameters_told (hr : book.rules.Ordered) (h₀ : w₀.parameters.Within book.rules)
    (h : Run book w₀ deeds w) : w.parameters.Within book.rules ∧ ∀ q,
      (movesOf q (eventsOf deeds)).Perm (w₀.ledger.moves book.rules q (commitsOf deeds)) ∧
      total ((movesOf q (eventsOf deeds)).map fun m => m.2 - m.1) =
        w.parameters.get q - w₀.parameters.get q := by
  have hledger : w.parameters = (w₀.ledger.enterAll book.rules (commitsOf deeds)).parameters :=
    congrArg Ledger.parameters h.accounts.ledger
  refine ⟨hledger ▸ Ledger.enterAll_within hr h₀ _, fun q => ?_⟩
  have hperm : (movesOf q (eventsOf deeds)).Perm (w₀.ledger.moves book.rules q (commitsOf deeds)) :=
    List.perm_iff_count.mpr fun m => Int.ofNat_inj.mp (h.accounts.told q m)
  refine ⟨hperm, ?_⟩
  rw [total_perm (hperm.map _), Ledger.total_moves, hledger]
  rfl

/-- A card that raises the temperature and the rating. -/
def thaw : Card where
  id := "thaw"
  name := "Thaw"
  type := .automated
  behaviors := [.immediate [
    { kind := .globalParameter .temperature, amount := 1 }, { kind := .terraformRating, amount := 1 }]]

/-- An effect that answers a rise of the temperature with oxygen. -/
def bloom : CardEffect where
  card := "bloom"
  name := "Bloom"
  index := 0
  behavior := .passive { kind := .temperatureRaise } [{ kind := .globalParameter .oxygen, amount := 1 }]

def growing : Rulebook where
  catalog := ⟨[thaw]⟩
  rules := {}
  depth := 8

/-- Two players who can play the card; the second has the effect. -/
def thicket : World where
  store := {
    games := [("game", { id := "game", parameters := { temperature := 5, oxygen := 13 } })]
    rosters := [("game", [
      { Player.named "first" with hand := ["thaw"] },
      { Player.named "second" with hand := ["thaw"], effects := [bloom] }])] }
  session := (Session.subscribe { game := "game" } "second" bloom).2

def thawing (p : PlayerId) : SessionCall := .act p (.play { card := "thaw" })

/-- A rating cannot be written, after so many that can. -/
def ratingDown (skip : Nat) (c : Call) : List Outage :=
  if c = .write .rating then [{ skip, times := 1 }] else []

def refusedThaw : World := ((thawing "first").run growing (thicket.withOutages (ratingDown 0))).2

/-- Then the first player plays the card, but the effect of the second is refused. -/
def firstThaw : World := ((thawing "first").run growing (refusedThaw.withOutages (ratingDown 2))).2

/-- Then the second player plays it. -/
def secondThaw : World := ((thawing "second").run growing (firstThaw.withOutages fun _ => [])).2

theorem thaw_run : ∃ deeds, Run growing thicket deeds secondThaw ∧
    commitsOf deeds = [thaw.gains none, thaw.gains none, bloom.behavior.outputs] ∧
    eventsOf deeds = [
      .parameterChanged .temperature { game := "game", before := 5, after := 7 },
      thaw.event "game" "first",
      .parameterChanged .temperature { game := "game", before := 7, after := 8 },
      .parameterChanged .oxygen { game := "game", before := 13, after := 14 },
      thaw.event "game" "second"] := by
  have hrefused : ((thawing "first").run growing (thicket.withOutages (ratingDown 0))).1 =
      .error (.refused Store.unavailable true) := by decide +kernel
  have hfirst : ((thawing "first").run growing (refusedThaw.withOutages (ratingDown 2))).1 =
      .ok () := by decide +kernel
  have hsecond : ((thawing "second").run growing (firstThaw.withOutages fun _ => [])).1 =
      .ok () := by decide +kernel
  have hrun : Run growing thicket _ refusedThaw :=
    .call .start _ (thawing "first") (.of_refused hrefused) (by decide +kernel)
  have hrun : Run growing thicket _ firstThaw :=
    .call hrun _ (thawing "first") (.of_ok hfirst) (by decide +kernel)
  have hrun : Run growing thicket _ secondThaw :=
    .call hrun _ (thawing "second") (.of_ok hsecond) (by decide +kernel)
  refine ⟨_, hrun, ?_⟩
  decide +kernel

theorem thicket_within : thicket.parameters.Within growing.rules := fun q => by cases q <;> decide

theorem growing_valid : growing.rules.Valid := fun q => by
  cases q <;> exact ⟨by decide, by decide, by decide, by decide⟩

/-- A refused play, a refused effect and one that is cut to its range. -/
theorem parameters_told_thaw : ∃ deeds, Run growing thicket deeds secondThaw ∧
    movesOf .temperature (eventsOf deeds) = [(5, 7), (7, 8)] ∧
    secondThaw.parameters.Within growing.rules ∧
    ∀ q, total ((movesOf q (eventsOf deeds)).map fun m => m.2 - m.1) =
      secondThaw.parameters.get q - thicket.parameters.get q := by
  obtain ⟨deeds, hrun, -, hevents⟩ := thaw_run
  obtain ⟨hwithin, htold⟩ := parameters_told growing_valid.ordered thicket_within hrun
  exact ⟨deeds, hrun, by rw [hevents]; rfl, hwithin, fun q => (htold q).2⟩

end Run

end MarsRules
