import Mathlib.Data.List.Nodup
import MarsRules.Bus.Script
import MarsRules.Proofs.Publishing

/-! What becomes of an event while its listeners change the bus. Nothing is assumed of a listener but
that it changes the bus by the operations that there are, so it may as well publish; publishing is
then itself such a change, and that carries the nesting. -/

namespace MarsRules

namespace Bus

variable {η σ : Type}

/-- What can become of a bus, and the ids that are handed out on the way, oldest first. -/
inductive History (b : Bus η) : List SubscriptionId → Bus η → Prop
  | start : History b [] b
  | subscribe {ids : List SubscriptionId} {c : Bus η} (h : History b ids c) (kind : EventKind)
      (handler : η) : History b (ids ++ [(c.subscribe kind handler).1]) (c.subscribe kind handler).2
  | unsubscribe {ids : List SubscriptionId} {c : Bus η} (h : History b ids c) (id : SubscriptionId) :
      History b ids (c.unsubscribe id).2
  | clear {ids : List SubscriptionId} {c : Bus η} (h : History b ids c) : History b ids c.clear

namespace History

variable {b c d : Bus η} {ids ids' : List SubscriptionId} {s : Subscription η}

theorem trans (h : History b ids c) (h' : History c ids' d) : History b (ids ++ ids') d := by
  induction h' with
  | start => rwa [List.append_nil]
  | subscribe _ kind handler ih => rw [← List.append_assoc]; exact ih.subscribe kind handler
  | unsubscribe _ id ih => exact ih.unsubscribe id
  | clear _ ih => exact ih.clear

theorem issued (h : History b ids c) : c.issued = b.issued + ids.length := by
  induction h with
  | start => rfl
  | @subscribe ids c _ kind handler ih =>
    show c.issued + 1 = _
    rw [ih, List.length_append, List.length_singleton, Nat.add_assoc]
  | unsubscribe _ _ ih => exact ih
  | clear _ ih => exact ih

theorem ids_eq (h : History b ids c) : ids = List.range' (b.issued + 1) ids.length := by
  induction h with
  | start => rfl
  | @subscribe ids c hc kind handler ih =>
    rw [List.length_append, List.length_singleton, List.range'_1_concat, ← ih]
    show ids ++ [c.issued + 1] = _
    rw [hc.issued, Nat.add_right_comm]
  | unsubscribe _ _ ih => exact ih
  | clear _ ih => exact ih

theorem nodup (h : History b ids c) : ids.Nodup := by
  rw [h.ids_eq]
  exact List.nodup_range'

theorem old_or_new (h : History b ids c) (hs : s ∈ c.subscriptions) :
    s ∈ b.subscriptions ∨ b.issued < s.id := by
  induction h with
  | start => exact .inl hs
  | @subscribe ids c hc kind handler ih =>
    rcases List.mem_append.mp hs with hs | hs
    · exact ih hs
    · refine .inr ?_
      obtain rfl := List.mem_singleton.mp hs
      show b.issued < c.issued + 1
      rw [hc.issued]
      omega
  | unsubscribe _ id ih => exact ih (List.mem_filter.mp hs).1
  | clear _ _ => cases hs

end History

/-- Subscriptions have ids that were handed out, in the order in which they were. -/
structure Ordered (b : Bus η) : Prop where
  increasing : b.subscriptions.Pairwise (·.id < ·.id)
  handedOut : ∀ s ∈ b.subscriptions, s.id ≤ b.issued

theorem History.ordered {b c : Bus η} {ids : List SubscriptionId} (h : History b ids c)
    (hb : b.Ordered) : c.Ordered := by
  induction h with
  | start => exact hb
  | @subscribe ids c _ kind handler ih =>
    refine ⟨List.pairwise_append.mpr ⟨ih.increasing, by simp, fun s hs t ht => ?_⟩, ?_⟩
    · obtain rfl := List.mem_singleton.mp ht
      exact Nat.lt_succ_of_le (ih.handedOut s hs)
    · refine List.forall_mem_append.mpr ⟨fun s hs => Nat.le_succ_of_le (ih.handedOut s hs), ?_⟩
      exact List.forall_mem_singleton.mpr (Nat.le_refl _)
  | unsubscribe _ id ih =>
    exact ⟨ih.increasing.filter _, fun s hs => ih.handedOut s (List.mem_filter.mp hs).1⟩
  | clear _ _ => exact ⟨.nil, fun s hs => by cases hs⟩

theorem ordered_empty : ({} : Bus η).Ordered := ⟨.nil, fun _ hs => by cases hs⟩

/-- Listeners whose ids were handed out here and belong to nobody else. -/
def Known (b : Bus η) (subs : List (Subscription η)) : Prop :=
  ∀ s ∈ subs, s.id ≤ b.issued ∧ ∀ t ∈ b.subscriptions, t.id = s.id → t = s

theorem Ordered.known {b : Bus η} (h : b.Ordered) (kind : EventKind) : b.Known (b.listeners kind) := by
  have hinj := List.inj_on_of_nodup_map (f := Subscription.id) <|
    List.Pairwise.map _ (fun _ _ => Nat.ne_of_lt) h.increasing
  intro s hs
  have hs := (List.mem_filter.mp hs).1
  exact ⟨h.handedOut s hs, fun t ht heq => hinj ht hs heq⟩

theorem Known.later {b c : Bus η} {subs : List (Subscription η)} {ids : List SubscriptionId}
    (h : b.Known subs) (hc : History b ids c) : c.Known subs := by
  intro s hs
  obtain ⟨hid, hown⟩ := h s hs
  refine ⟨Nat.le_trans hid (hc.issued ▸ Nat.le_add_right ..), fun t ht heq => ?_⟩
  rcases hc.old_or_new ht with ht | hnew
  · exact hown t ht heq
  · exact absurd (heq ▸ hid) (Nat.not_le_of_lt hnew)

theorem Known.isRegistered_iff {b : Bus η} {subs : List (Subscription η)} {s : Subscription η}
    (h : b.Known subs) (hs : s ∈ subs) : b.isRegistered s.id = true ↔ s ∈ b.subscriptions := by
  simp only [isRegistered, List.any_eq_true, beq_iff_eq]
  constructor
  · rintro ⟨t, ht, hid⟩
    exact (h s hs).2 t ht hid ▸ ht
  · exact fun hs => ⟨s, hs, rfl⟩

/-- One listener's turn: how it finds things and how it leaves them. -/
structure Turn (σ η : Type) where
  sub : Subscription η
  before : σ
  after : σ
  succeeded : Bool

section Turns

variable {bus : σ → Bus η} {call : Subscription η → StateM σ Bool}

/-- Whoever is still subscribed is called; nothing comes of the others. -/
def Turn.Taken (bus : σ → Bus η) (call : Subscription η → StateM σ Bool) (t : Turn σ η) : Prop :=
  t.sub ∈ (bus t.before).subscriptions ∧ call t.sub t.before = (t.succeeded, t.after) ∨
    t.sub ∉ (bus t.before).subscriptions ∧ t.succeeded = false ∧ t.after = t.before

/-- The turns of these listeners, each of which finds things as the one before left them. -/
structure Turns (bus : σ → Bus η) (call : Subscription η → StateM σ Bool)
    (subs : List (Subscription η)) (s : σ) (turns : List (Turn σ η)) (t : σ) : Prop where
  subs : turns.map (·.sub) = subs
  states : turns.map (·.before) ++ [t] = s :: turns.map (·.after)
  taken : ∀ turn ∈ turns, turn.Taken bus call

theorem Turns.nil (s : σ) : Turns bus call [] s [] s := ⟨rfl, rfl, fun _ h => by cases h⟩

theorem Turns.cons {turn : Turn σ η} {subs : List (Subscription η)} {turns : List (Turn σ η)} {t : σ}
    (h : turn.Taken bus call) (hrest : Turns bus call subs turn.after turns t) :
    Turns bus call (turn.sub :: subs) turn.before (turn :: turns) t where
  subs := by rw [List.map_cons, hrest.subs]
  states := by rw [List.map_cons, List.cons_append, hrest.states, List.map_cons]
  taken := List.forall_mem_cons.mpr ⟨h, hrest.taken⟩

def isLiveOn (bus : σ → Bus η) (id : SubscriptionId) : StateM σ Bool :=
  return (bus (← get)).isRegistered id

variable {R : σ → σ → Prop} [Std.Refl R] (hcall : ∀ sub s, R s (call sub s).2)

include hcall

theorem turn_keeps (live : Bool) (sub : Subscription η) (s : σ) :
    R s ((if live then call sub else pure false : StateM σ Bool) s).2 := by
  cases live
  · exact Std.Refl.refl s
  · exact hcall sub s

variable [Trans R R R]

theorem deliver_keeps (bus : σ → Bus η) (subs : List (Subscription η)) (s : σ) :
    R s (deliver (isLiveOn bus) call subs s).2 := by
  induction subs generalizing s with
  | nil => exact Std.Refl.refl s
  | cons sub rest ih =>
    rw [deliver_cons]
    exact Trans.trans (turn_keeps hcall ((bus s).isRegistered sub.id) sub s) (ih _)

theorem deliver_turns (hR : ∀ s t, R s t → ∃ ids, History (bus s) ids (bus t))
    {subs : List (Subscription η)} {s : σ} (h : (bus s).Known subs) :
    ∃ turns t, deliver (isLiveOn bus) call subs s = (turns.countP (·.succeeded), t) ∧
      Turns bus call subs s turns t ∧ ∀ turn ∈ turns, R s turn.after := by
  induction subs generalizing s with
  | nil => exact ⟨[], s, rfl, .nil s, by simp⟩
  | cons sub rest ih =>
    obtain ⟨turn, rfl, rfl, htaken, hrun⟩ : ∃ turn : Turn σ η, turn.sub = sub ∧ turn.before = s ∧
        turn.Taken bus call ∧ (if (bus s).isRegistered sub.id then call sub else pure false) s =
          (turn.succeeded, turn.after) := by
      have hlive := h.isRegistered_iff (List.mem_cons_self ..)
      cases hr : (bus s).isRegistered sub.id with
      | true => exact ⟨⟨sub, s, (call sub s).2, (call sub s).1⟩, rfl, rfl, .inl ⟨hlive.mp hr, rfl⟩, rfl⟩
      | false =>
        have hgone : sub ∉ (bus s).subscriptions := fun hs => by simp [hlive.mpr hs] at hr
        exact ⟨⟨sub, s, s, false⟩, rfl, rfl, .inr ⟨hgone, rfl, rfl⟩, rfl⟩
    have hafter : R turn.before turn.after := by
      have := turn_keeps hcall ((bus turn.before).isRegistered turn.sub.id) turn.sub turn.before
      rwa [hrun] at this
    obtain ⟨ids, hids⟩ := hR _ _ hafter
    obtain ⟨turns, t, hdeliver, hturns, hduring⟩ :=
      ih (s := turn.after) fun s hs => (h.later hids) s (List.mem_cons_of_mem _ hs)
    refine ⟨turn :: turns, t, ?_, hturns.cons htaken, List.forall_mem_cons.mpr
      ⟨hafter, fun u hu => Trans.trans hafter (hduring u hu)⟩⟩
    rw [deliver_cons, List.countP_cons]
    show (let (succeeded, s) := (if (bus turn.before).isRegistered turn.sub.id then call turn.sub
        else pure false) turn.before
      let (n, s) := deliver (isLiveOn bus) call rest s
      (if succeeded then n + 1 else n, s)) = _
    rw [hrun]
    dsimp only
    rw [hdeliver]
    cases turn.succeeded <;> rfl

end Turns

namespace Report

/-- The id that an action was given, if it asked for one. -/
def ids : Report → List SubscriptionId
  | subscribed id => [id]
  | _ => []

theorem ids_of_failed {r : Report} (h : r.succeeded = false) : r.ids = [] := by
  cases r <;> first | rfl | cases h

end Report

def Entry.ids : Entry → List SubscriptionId
  | called _ _ => []
  | did _ report => report.ids

namespace Stage

/-- One stage leads to the other, and the record tells of every id that is handed out on the way; what
an action reports itself is not in the record yet. -/
def Leads (s t : Stage) (reported : List SubscriptionId) : Prop :=
  ∃ new, t.entries = s.entries ++ new ∧ History s.bus (new.flatMap Entry.ids ++ reported) t.bus

abbrev Follows (s t : Stage) : Prop := Leads s t []

theorem Leads.trans {s t u : Stage} {reported : List SubscriptionId} (h : Follows s t)
    (h' : Leads t u reported) : Leads s u reported := by
  obtain ⟨new, hnew, hbus⟩ := h
  obtain ⟨new', hnew', hbus'⟩ := h'
  refine ⟨new ++ new', by rw [hnew', hnew, List.append_assoc], ?_⟩
  rw [List.flatMap_append, List.append_assoc]
  exact (List.append_nil _ ▸ hbus).trans hbus'

instance : Std.Refl Follows := ⟨fun _ => ⟨[], (List.append_nil _).symm, .start⟩⟩

instance : Trans Follows Follows Follows := ⟨Leads.trans⟩

theorem Leads.write {s t : Stage} {report : Report} (h : Leads s t report.ids) (name : String) :
    Follows s (Stage.write (.did name report) t) := by
  obtain ⟨new, hnew, hbus⟩ := h
  refine ⟨new ++ [.did name report], ?_, ?_⟩
  · show t.entries ++ _ = _
    rw [hnew, List.append_assoc]
  · rw [List.append_nil, List.flatMap_append, List.flatMap_singleton]
    exact hbus

section Follows

variable {perform : Action → StateM Stage Report}
  (h : ∀ a s, Leads s (perform a s).2 (perform a s).1.ids)

include h

theorem runActions_follows (name : String) (actions : List Action) (s : Stage) :
    Follows s (runActions perform name actions s).2 := by
  induction actions generalizing s with
  | nil => exact Std.Refl.refl s
  | cons a rest ih =>
    have ha := h a s
    show Follows s ((if !(perform a s).1.succeeded then pure false else do
      modify (write (.did name (perform a s).1))
      runActions perform name rest : StateM Stage Bool) (perform a s).2).2
    cases hs : (perform a s).1.succeeded with
    | true => exact Trans.trans (ha.write name) (ih _)
    | false =>
      rw [Report.ids_of_failed hs] at ha
      exact ha

theorem call_follows (e : Event) (sub : Subscription Script) (s : Stage) :
    Follows s (call perform e sub s).2 := by
  have hcalled : Follows s (use sub.id (write (.called sub.handler.name e) s)).2 :=
    ⟨[.called sub.handler.name e], rfl, .start⟩
  show Follows s ((if sub.handler.limit.any (· ≤ s.uses sub.id) then pure true else
    runActions perform sub.handler.name sub.handler.actions : StateM Stage Bool)
      (use sub.id (write (.called sub.handler.name e) s)).2).2
  split
  · exact hcalled
  · exact Trans.trans hcalled (runActions_follows h _ _ _)

end Follows

theorem act_leads_of (depth : Nat)
    (h : ∀ e s, Leads s (act depth (.publish e) s).2 (act depth (.publish e) s).1.ids) (a : Action)
    (s : Stage) : Leads s (act depth a s).2 (act depth a s).1.ids := by
  have same : Follows s s := Std.Refl.refl s
  cases a with
  | publish e => exact h e s
  | subscribe name kind actions limit =>
    rw [act]
    exact ⟨[], (List.append_nil _).symm, .subscribe .start ..⟩
  | unsubscribe name =>
    have hact : act depth (.unsubscribe name) s = (s.names.get? name).elim (.removed none, s) fun id =>
        (.removed (some (s.bus.unsubscribe id).1), { s with bus := (s.bus.unsubscribe id).2 }) := by
      rw [act]
      have hget (f : Stage → StateM Stage Report) : (get >>= f) s = f s s := rfl
      rw [hget]
      cases s.names.get? name <;> rfl
    rw [hact]
    cases s.names.get? name with
    | some id => exact ⟨[], (List.append_nil _).symm, .unsubscribe .start id⟩
    | none => exact same
  | clear => rw [act]; exact ⟨[], (List.append_nil _).symm, .clear .start⟩
  | count => rw [act]; exact same
  | fail => rw [act]; exact same

theorem act_leads (depth : Nat) (a : Action) (s : Stage) :
    Leads s (act depth a s).2 (act depth a s).1.ids := by
  induction depth generalizing a s with
  | zero => exact act_leads_of 0 (fun _ s => Std.Refl.refl (r := Follows) s) a s
  | succ depth ih =>
    exact act_leads_of (depth + 1) (fun e s => deliver_keeps (R := Follows) (call_follows ih e)
      Stage.bus (s.bus.listeners e.kind) s) a s

/-- How an event is dealt with on a stage, whose bus has so far handed out these ids. -/
structure Dispatch (depth : Nat) (e : Event) (past : List SubscriptionId) (s : Stage)
    (turns : List (Turn Stage Script)) (t : Stage) (new : List Entry) : Prop where
  /-- The calls that succeed are counted. -/
  delivered : act (depth + 1) (.publish e) s = (.delivered (turns.countP (·.succeeded)), t)
  /-- Those who are subscribed to its kind at the start have a turn, whatever the others do. -/
  heard : Turns Stage.bus (call (act depth) e) (s.bus.listeners e.kind) s turns t
  /-- The turns are in the order of registration, and no one has two. -/
  increasing : (turns.map (·.sub.id)).Pairwise (· < ·)
  /-- Whoever is added meanwhile has none. -/
  newcomers : ∀ turn ∈ turns, ∀ sub ∈ turn.after.bus.subscriptions, sub ∉ s.bus.subscriptions →
    sub.id ∉ turns.map (·.sub.id)
  /-- The ids handed out meanwhile are those the record tells of, and none was handed out before. -/
  entries : t.entries = s.entries ++ new
  history : History {} (past ++ new.flatMap Entry.ids) t.bus
  fresh : (past ++ new.flatMap Entry.ids).Nodup

/-- An event goes to those who are subscribed when it is published and still are when their turn comes,
whatever they do to the bus themselves, nested events included. -/
theorem publish_dispatch (depth : Nat) (e : Event) {past : List SubscriptionId} {s : Stage}
    (h : History {} past s.bus) : ∃ turns t new, Dispatch depth e past s turns t new := by
  have hs : s.bus.Ordered := h.ordered ordered_empty
  obtain ⟨turns, t, hdeliver, hturns, hduring⟩ := deliver_turns (R := Follows)
    (call_follows (act_leads depth) e) (fun s t ⟨_, _, hbus⟩ => ⟨_, hbus⟩) (hs.known e.kind)
  have hact : act (depth + 1) (.publish e) s = (.delivered (turns.countP (·.succeeded)), t) := by
    show (let (n, t) := deliver (isLiveOn Stage.bus) (call (act depth) e) (s.bus.listeners e.kind) s
      ((.delivered n, t) : Report × Stage)) = _
    rw [hdeliver]
  have hids : turns.map (·.sub.id) = (s.bus.listeners e.kind).map (·.id) := by
    rw [← hturns.subs, List.map_map]
    rfl
  obtain ⟨new, hnew, hbus⟩ := act_leads (depth + 1) (.publish e) s
  rw [hact] at hnew hbus
  have hbus : History s.bus (new.flatMap Entry.ids) t.bus := by simpa [Report.ids] using hbus
  refine ⟨turns, t, new, hact, hturns, ?_, fun turn ht sub hsub hold hmem => ?_, hnew, h.trans hbus,
    (h.trans hbus).nodup⟩
  · rw [hids]
    exact List.Pairwise.map _ (fun _ _ => id) (hs.increasing.filter _)
  · rw [hids] at hmem
    obtain ⟨other, hother, heq⟩ := List.mem_map.mp hmem
    obtain ⟨_, _, hafter⟩ := hduring turn ht
    have hnew := (hafter.old_or_new hsub).resolve_left hold
    have hid : other.id = sub.id := heq
    exact absurd (hid ▸ hs.handedOut other (List.mem_filter.mp hother).1) (Nat.not_le_of_lt hnew)

/-- Three listeners. The first drops the third, adds one and fails; the second publishes the event
once more and then drops everyone. -/
def reentrant (e : Event) : Stage :=
  [Action.subscribe "first" e.kind
      [.unsubscribe "third", .subscribe "fourth" e.kind [] none, .fail .lockPoisoned] none,
    .subscribe "second" e.kind [.publish e, .clear] (some 1),
    .subscribe "third" e.kind [] none].foldl (fun s a => (act 0 a s).2) {}

theorem publish_dispatch_reentrant :
    let e : Event := .phaseChanged { game := "g1", before := .setup, after := .action }
    History {} [1, 2, 3] (reentrant e).bus ∧
      ∃ turns t new, Dispatch 1 e [1, 2, 3] (reentrant e) turns t new :=
  have h := .subscribe (.subscribe (.subscribe .start _ _) _ _) _ _
  ⟨h, publish_dispatch 1 _ h⟩

/-- The second one gets through; the first has failed, the third is gone, and the others came late. -/
example :
    let e : Event := .phaseChanged { game := "g1", before := .setup, after := .action }
    let r := act 2 (.publish e) (reentrant e)
    r.1 = .delivered 1 ∧ r.2.bus.issued = 5 ∧ r.2.entries = [
      .called "first" e, .did "first" (.removed (some true)), .did "first" (.subscribed 4),
      .called "second" e,
      .called "first" e, .did "first" (.removed (some false)), .did "first" (.subscribed 5),
      .called "second" e, .called "fourth" e,
      .did "second" (.delivered 2), .did "second" (.cleared 4)] := by
  decide +kernel

end Stage

end Bus

end MarsRules
