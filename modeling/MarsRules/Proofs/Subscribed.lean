import Mathlib.Data.List.Perm.Basic
import MarsRules.Proofs.Turns

/-! The subscriptions over the whole course of a session. They are the effects on record, or fewer:
rewinding a card drops it for everybody, and only that loses a subscription. -/

namespace MarsRules

theorem Catalog.id_of_find? {catalog : Catalog} {id : CardId} {card : Card}
    (h : catalog.find? id = some card) : card.id = id := by simpa using List.find?_some h

/-- What holds of the subscriptions in every state: they are filed under their cards, and they are
for effects that the cards of the catalog have. -/
structure Session.Printed (catalog : Catalog) (s : Session) : Prop where
  filed : s.Filed
  effects : ∀ l ∈ s.live, ∃ card, catalog.find? l.2.card = some card ∧
    l.2 ∈ card.effects.filter (·.listens)

namespace Session.Printed

variable {catalog : Catalog} {id : CardId} {card : Card} {s t : Session}

theorem of_same (h : s.Printed catalog) (hs : s.Same t) : t.Printed catalog :=
  ⟨hs.filed h.filed, hs.live ▸ h.effects⟩

theorem listen (h : s.Printed catalog) (found : catalog.find? id = some card) (p : PlayerId) :
    (s.listen p card.effects).Printed catalog := by
  refine ⟨h.filed.listen, ?_⟩
  rw [live_listen, List.forall_mem_append]
  refine ⟨h.effects, fun l hl => ?_⟩
  obtain ⟨e, he, rfl⟩ := List.mem_map.mp hl
  have hcard : e.card = card.id := Card.card_of_mem_effects (List.mem_filter.mp he).1
  exact ⟨card, by rw [hcard, Catalog.id_of_find? found, found], he⟩

theorem unsubscribe (h : s.Printed catalog) (id : CardId) : (s.unsubscribe id).Printed catalog := by
  refine ⟨h.filed.unsubscribe id, ?_⟩
  rw [h.filed.live_unsubscribe]
  exact fun l hl => h.effects l (List.mem_filter.mp hl).1

theorem live_rewound (h : s.Printed catalog) (found : catalog.find? id = some card) (p : PlayerId) :
    ((s.listen p card.effects).unsubscribe card.id).live = s.live.filter (·.2.card ≠ id) := by
  have hnew : ((card.effects.filter (·.listens)).map (p, ·)).filter (·.2.card ≠ card.id) = [] := by
    refine List.filter_eq_nil_iff.mpr fun l hl => ?_
    obtain ⟨e, he, rfl⟩ := List.mem_map.mp hl
    simp [Card.card_of_mem_effects (List.mem_filter.mp he).1]
  rw [h.filed.listen.live_unsubscribe, live_listen, List.filter_append, hnew, List.append_nil,
    Catalog.id_of_find? found]

theorem card_ne (h : s.Printed catalog) (found : catalog.find? id = some card)
    (hnone : card.effects.filter (·.listens) = []) : ∀ l ∈ s.live, l.2.card ≠ id := by
  rintro l hl rfl
  obtain ⟨card', hfind, he⟩ := h.effects l hl
  obtain rfl := Option.some.inj (found.symm.trans hfind)
  rw [hnone] at he
  cases he

end Session.Printed

/-- A call that was made in a session. -/
structure Turn where
  player : PlayerId
  operation : Operation
  before : World
  after : World

/-- Effects of a card were subscribed and none came to be recorded, while the card had others that
were listening. -/
def Turn.Clashes (t : Turn) : Prop :=
  t.before.session.bus.issued < t.after.session.bus.issued ∧
    t.after.recorded = t.before.recorded ∧
    ∃ l ∈ t.before.session.live, t.operation.card? = some l.2.card

instance (t : Turn) : Decidable t.Clashes := inferInstanceAs (Decidable (_ ∧ _ ∧ _))

/-- A call either adds the same effects on both sides, or it clashes and takes some off the bus. -/
inductive Turn.Weighs (t : Turn) : Prop
  | adds (clean : ¬ t.Clashes) (effects : List (PlayerId × CardEffect))
      (live : t.after.session.live = t.before.session.live ++ effects)
      (recorded : t.after.recorded.Perm (t.before.recorded ++ effects))
  | loses (clash : t.Clashes) (live : t.after.session.live.Sublist t.before.session.live)
      (fewer : t.after.session.live.length < t.before.session.live.length)
      (recorded : t.after.recorded = t.before.recorded)

namespace World.Turned

variable {catalog : Catalog} {p : PlayerId} {id : CardId} {w v : World}

theorem printed (h : Turned catalog p id w v) (hw : w.session.Printed catalog) :
    v.session.Printed catalog := by
  cases h with
  | quiet h => exact hw.of_same h.same
  | added card found same _ => exact (hw.listen found p).of_same same
  | rewound card found same _ => exact ((hw.listen found p).unsubscribe card.id).of_same same

end World.Turned

namespace Turn

variable {catalog : Catalog} {p : PlayerId} {id : CardId} {t : Turn}

theorem weighs_of_quiet (h : t.before.Quiet t.after) : t.Weighs := by
  refine .adds ?_ [] (by simp [h.same.live]) (by simp [h.recorded])
  rintro ⟨hissued, -, -⟩
  rw [h.same.bus] at hissued
  exact Nat.lt_irrefl _ hissued

theorem weighs_of_turned (hw : t.before.session.Printed catalog) (hop : t.operation.card? = some id)
    (h : t.before.Turned catalog p id t.after) : t.Weighs := by
  cases h with
  | quiet h => exact weighs_of_quiet h
  | added card found same recorded =>
    refine .adds ?_ _ (same.live.trans Session.live_listen) recorded
    rintro ⟨hissued, hsame, -⟩
    have hlength := recorded.length_eq
    rw [hsame, List.length_append, List.length_map] at hlength
    rw [same.bus, Session.issued_listen] at hissued
    omega
  | rewound card found same recorded =>
    have hlive : t.after.session.live = t.before.session.live.filter (·.2.card ≠ id) :=
      same.live.trans (hw.live_rewound found p)
    have hissued : t.after.session.bus.issued =
        t.before.session.bus.issued + (card.effects.filter (·.listens)).length := by
      rw [same.bus, Session.issued_unsubscribe, Session.issued_listen]
    by_cases hclash : ∃ l ∈ t.before.session.live, l.2.card = id
    · obtain ⟨l, hl, hid⟩ := hclash
      have hsome : card.effects.filter (·.listens) ≠ [] := fun hnone => hw.card_ne found hnone l hl hid
      refine .loses ⟨?_, recorded, l, hl, hop.trans (congrArg some hid.symm)⟩ ?_ ?_ recorded
      · rw [hissued]
        exact Nat.lt_add_of_pos_right (List.length_pos_iff.mpr hsome)
      · exact hlive ▸ List.filter_sublist
      · rw [hlive]
        exact List.length_filter_lt_length_iff_exists.mpr ⟨l, hl, by simpa using hid⟩
    · have hall : ∀ l ∈ t.before.session.live, l.2.card ≠ id := fun l hl hid => hclash ⟨l, hl, hid⟩
      refine .adds ?_ [] ?_ (by simp [recorded])
      · rintro ⟨-, -, l, hl, hcard⟩
        exact hall l hl (Option.some.inj (hop.symm.trans hcard)).symm
      · rw [hlive, List.append_nil, List.filter_eq_self]
        simpa using hall

end Turn

def World.withOutages (w : World) (outages : Call → List Outage) : World :=
  { w with store := { w.store with outages } }

def Turn.of (book : Rulebook) (p : PlayerId) (op : Operation) (w : World) : Turn :=
  ⟨p, op, w, (op.run book p w).2⟩

/-- The calls made in a session so far, each of them finished, and where they led. Calls on the store
can fail at any time. -/
inductive Course (book : Rulebook) (w₀ : World) : List Turn → World → Prop
  | start : Course book w₀ [] w₀
  | turn {turns : List Turn} {w : World} (h : Course book w₀ turns w)
      (outages : Call → List Outage) (p : PlayerId) (op : Operation)
      (finished : Finished (op.run book p (w.withOutages outages)).1) :
      Course book w₀ (turns ++ [Turn.of book p op (w.withOutages outages)])
        (Turn.of book p op (w.withOutages outages)).after

namespace Course

variable {book : Rulebook} {w₀ w : World} {turns : List Turn}

/-- What listens is on record; all that is on record listens unless a call has clashed. -/
structure Balanced (turns : List Turn) (w : World) : Prop where
  subperm : w.session.live.Subperm w.recorded
  perm : (∀ t ∈ turns, ¬ t.Clashes) → w.session.live.Perm w.recorded
  lost : (∃ t ∈ turns, t.Clashes) → w.session.live.length < w.recorded.length

theorem Balanced.step {t : Turn} (h : Balanced turns t.before) (ht : t.Weighs) :
    Balanced (turns ++ [t]) t.after := by
  cases ht with
  | adds clean effects live recorded =>
    refine ⟨?_, fun hnone => ?_, fun ⟨t', ht', hclash⟩ => ?_⟩
    · rw [live]
      exact ((List.subperm_append_right effects).mpr h.subperm).trans recorded.symm.subperm
    · have hperm := h.perm fun t' ht' => hnone t' (List.mem_append_left _ ht')
      rw [live]
      exact (hperm.append_right effects).trans recorded.symm
    · rcases List.mem_append.mp ht' with ht' | ht'
      · have hlost := h.lost ⟨t', ht', hclash⟩
        rw [live, recorded.length_eq, List.length_append, List.length_append]
        exact Nat.add_lt_add_right hlost _
      · exact absurd (List.mem_singleton.mp ht' ▸ hclash) clean
  | loses clash live fewer recorded =>
    refine ⟨?_, fun hnone => absurd clash (hnone t (by simp)), fun _ => ?_⟩
    · rw [recorded]
      exact live.subperm.trans h.subperm
    · rw [recorded]
      exact Nat.lt_of_lt_of_le fewer h.subperm.length_le

theorem printed_balanced (h : Course book w₀ turns w) (hfiled : w₀.session.Filed)
    (hlive : w₀.session.live = []) (hrecorded : w₀.recorded = []) :
    w.session.Printed book.catalog ∧ Balanced turns w := by
  induction h with
  | start =>
    refine ⟨⟨hfiled, by simp [hlive]⟩, ?_, fun _ => ?_, by simp⟩
    · rw [hlive]; exact List.nil_subperm
    · rw [hlive, hrecorded]
  | @turn turns w h outages p op finished ih =>
    obtain ⟨hprinted, hbalanced⟩ := ih
    have hprinted : (w.withOutages outages).session.Printed book.catalog := hprinted
    have hbalanced : Balanced turns (w.withOutages outages) :=
      ⟨hbalanced.subperm, hbalanced.perm, hbalanced.lost⟩
    rcases op.run_turns book p rfl finished with hquiet | ⟨id, hop, hturned⟩
    · exact ⟨hprinted.of_same hquiet.same, hbalanced.step (Turn.weighs_of_quiet hquiet)⟩
    · exact ⟨hturned.printed hprinted, hbalanced.step (Turn.weighs_of_turned hprinted hop hturned)⟩

/-- In a session that is opened when nobody has effects, only effects on record listen, and none more
often than it is recorded. All of them listen if and only if no call has subscribed and then dropped
a card that had effects listening before. -/
theorem live_perm_recorded {store : Store} {game : GameId} {recording : Bool} {session : Session}
    (hopen : Session.start store game recording = .ok session)
    (hnone : ∀ player ∈ store.roster game, player.effects = [])
    (h : Course book ⟨store, session⟩ turns w) :
    w.session.live.Subperm w.recorded ∧
      (w.session.live.Perm w.recorded ↔ ∀ t ∈ turns, ¬ t.Clashes) := by
  obtain ⟨hgame, hfiled, hlive⟩ := Session.start_ok hopen
  have hrecorded : World.recorded ⟨store, session⟩ = [] := by
    show (store.roster session.game).flatMap _ = []
    rw [hgame]
    exact List.flatMap_eq_nil_iff.mpr fun player hp => by simp [Player.standing, hnone player hp]
  obtain ⟨-, hb⟩ := h.printed_balanced hfiled hlive hrecorded
  refine ⟨hb.subperm, fun hperm t ht hclash => ?_, hb.perm⟩
  exact Nat.ne_of_lt (hb.lost ⟨t, ht, hclash⟩) hperm.length_eq

def sentinel (id : CardId) : Card where
  id := id
  name := "Sentinel"
  type := .active
  behaviors := [.passive { kind := .temperatureRaise } [{ kind := .resource .credits, amount := 1 }]]
  victoryPoints := [{ kind := .fixed, amount := 1 }]

def posted : Rulebook where
  catalog := ⟨[sentinel "sentinel", sentinel "beacon"]⟩
  rules := {}
  depth := 8

def rivals : World where
  store := {
    games := [("game", { id := "game" })]
    rosters := [("game", [
      { Player.named "first" with hand := ["sentinel"] },
      { Player.named "second" with hand := ["sentinel", "beacon"] }])] }
  session := (Session.new "game" false).watch

def pointsDown (c : Call) : List Outage := if c = .write .points then [{ times := 1 }] else []

/-- The second player plays a card after the first has played theirs, but the points cannot be
written. -/
def refusal (id : CardId) : Turn :=
  let played := Turn.of posted "first" (.play { card := "sentinel" }) rivals
  Turn.of posted "second" (.play { card := id }) (played.after.withOutages pointsDown)

theorem refusal_course (id : CardId) (h : ((Operation.play { card := id }).run posted "second"
      (refusal id).before).1 = .error (.refused Store.unavailable true)) :
    Course posted rivals [Turn.of posted "first" (.play { card := "sentinel" }) rivals, refusal id]
      (refusal id).after := by
  have hfirst : ((Operation.play { card := "sentinel" }).run posted "first" rivals).1 = .ok () := by
    decide +kernel
  have hplayed : Course posted rivals [Turn.of posted "first" (.play { card := "sentinel" }) rivals]
      (Turn.of posted "first" (.play { card := "sentinel" }) rivals).after :=
    .turn .start (fun _ => []) _ _ (.of_ok hfirst)
  exact .turn hplayed pointsDown _ _ (.of_refused h)

theorem rivals_start : Session.start rivals.store "game" false = .ok rivals.session ∧
    ∀ player ∈ rivals.store.roster "game", player.effects = [] := ⟨rfl, by decide⟩

theorem live_perm_recorded_beacon : ∃ turns w, Course posted rivals turns w ∧
    w.session.live.length = 1 ∧ w.session.live.Perm w.recorded := by
  have hc := refusal_course "beacon" (by decide +kernel)
  refine ⟨_, _, hc, by decide +kernel, ?_⟩
  refine (live_perm_recorded rivals_start.1 rivals_start.2 hc).2.mpr ?_
  decide +kernel

/-- The refusal of the second player drops the effect of the first, which stays on record. -/
theorem live_not_perm : Session.start rivals.store "game" false = .ok rivals.session ∧
    (∀ player ∈ rivals.store.roster "game", player.effects = []) ∧
    ∃ turns w, Course posted rivals turns w ∧ w.session.live = [] ∧ w.recorded.length = 1 ∧
      ¬ w.session.live.Perm w.recorded := by
  refine ⟨rivals_start.1, rivals_start.2, _, _, refusal_course "sentinel" (by decide +kernel), ?_⟩
  decide +kernel

end Course

end MarsRules
