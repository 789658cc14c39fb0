import Mathlib.Data.Fintype.Card
import Mathlib.Logic.Relation
import MarsRules.Proofs.Descent
import MarsRules.Proofs.Slack

/-! Whether publishing ends. A raise of a parameter may be answered with a lowering of others; where
that never comes round in a circle, every event is dealt with after finitely many reactions. -/

namespace MarsRules

/-- At some depth of nesting the steps end well, and no deeper nesting changes what they do. -/
def Settles {α : Type} (f : Nat → Engine α) (Q : World → Prop) (w : World) : Prop :=
  ∃ depth a v, Q v ∧ ∀ deeper ≥ depth, f deeper w = (.ok a, v)

namespace Settles

variable {α β : Type} {f : Nat → Engine α} {g : α → Nat → Engine β} {P Q : World → Prop}
  {w v : World}

theorem pure {a : α} (h : Q w) : Settles (fun _ => Pure.pure a) Q w := ⟨0, a, w, h, fun _ _ => rfl⟩

theorem bind (h : Settles f P w) (hg : ∀ a v, P v → Settles (g a) Q v) :
    Settles (fun depth => f depth >>= fun a => g a depth) Q w := by
  obtain ⟨d, a, v, hv, hf⟩ := h
  obtain ⟨d', b, u, hu, hg⟩ := hg a v hv
  refine ⟨max d d', b, u, hu, fun deeper hd => ?_⟩
  have hd := max_le_iff.mp hd
  exact (Steps.bind_apply_ok (hf deeper hd.1)).trans (hg deeper hd.2)

theorem mono (h : Settles f P w) (hPQ : ∀ v, P v → Q v) : Settles f Q w := by
  obtain ⟨d, a, v, hv, hf⟩ := h
  exact ⟨d, a, v, hPQ v hv, hf⟩

theorem forM {f : β → Nat → Engine Unit} (bs : List β)
    (h : ∀ b ∈ bs, ∀ w, Q w → Settles (f b) Q w) (hw : Q w) :
    Settles (fun depth => bs.forM (f · depth)) Q w := by
  induction bs generalizing w with
  | nil => exact Settles.pure hw
  | cons b rest ih =>
    obtain ⟨hb, hr⟩ := List.forall_mem_cons.mp h
    exact (hb w hw).bind fun _ v hv => ih hr hv

end Settles

namespace Engine

variable {book : Rulebook} {e : Event} {Q : World → Prop} {w : World}

theorem settles_deliver (subs : List (Subscription Listener))
    (h : ∀ s ∈ subs, ∀ w, Q w → Settles (fun depth => takeTurn book depth e s) Q w) (hw : Q w) :
    Settles (fun depth => Bus.deliver isLive (takeTurn book depth e) subs) Q w := by
  induction subs generalizing w with
  | nil => exact Settles.pure hw
  | cons s rest ih =>
    obtain ⟨hs, hr⟩ := List.forall_mem_cons.mp h
    simp only [Bus.deliver_cons]
    have hlive : Settles (fun _ => isLive s.id) Q w := ⟨0, _, w, hw, fun _ _ => rfl⟩
    refine hlive.bind (g := fun live depth => _) fun live v hv => ?_
    refine Settles.bind (P := Q) (f := fun depth => if live then takeTurn book depth e s else pure false)
      (g := fun succeeded depth => _) ?_ fun succeeded u hu => ?_
    · cases live
      · exact Settles.pure hv
      · exact hs v hv
    · exact (ih hr hu).bind (g := fun n _ => pure (if succeeded then n + 1 else n))
        fun n x hx => Settles.pure hx

theorem settles_publish
    (h : ∀ s ∈ w.session.bus.listeners e.kind, ∀ v, Q v →
      Settles (fun depth => takeTurn book depth e s) Q v) (hw : Q w) :
    Settles (fun depth => publishWithin book depth e) Q w := by
  obtain ⟨d, n, v, hv, hd⟩ := settles_deliver (w.session.bus.listeners e.kind) h hw
  refine ⟨d + 1, n, v, hv, fun deeper hdeeper => ?_⟩
  obtain ⟨depth, rfl⟩ : ∃ depth, deeper = depth + 1 := ⟨deeper - 1, by omega⟩
  exact hd depth (by omega)

theorem settles_takeTurn (hr : book.rules.Valid) {s : Subscription Listener}
    (h : ∀ r v, Reaction book.rules (s.handler.Answers e) (s.handler.Lowers e) w r v → Q v ∧
      ∀ events, r = .ok events →
        Settles (fun depth => events.forM fun e => do let _ ← publishWithin book depth e) Q v) :
    Settles (fun depth => takeTurn book depth e s) Q w := by
  rcases hx : s.handler.react book e w with ⟨r, v⟩
  have hreact := Listener.react_reaction hr hx
  obtain ⟨hv, hevents⟩ := h r v hreact
  cases r with
  | error stop =>
    refine ⟨0, false, v, hv, fun _ _ => ?_⟩
    have hstop := hreact.stop stop rfl
    cases stop with
    | refused refusal restored =>
      have : outcome (s.handler.react book e) w = (.ok (.error refusal), v) := by simp [outcome, hx]
      exact Steps.bind_apply_ok this
    | brokenRange | tooDeep => exact hstop.elim
  | ok events =>
    obtain ⟨d, u, x, hxq, hd⟩ := hevents events rfl
    refine ⟨d, true, x, hxq, fun deeper hdeeper => ?_⟩
    have : outcome (s.handler.react book e) w = (.ok (.ok events), v) := by simp [outcome, hx]
    refine (Steps.bind_apply_ok this).trans ?_
    exact Steps.bind_apply_ok (hd deeper hdeeper)

end Engine

instance : Fintype GlobalParameter :=
  ⟨{.temperature, .oxygen, .oceans}, fun q => by cases q <;> simp⟩

/-- An effect that is subscribed answers a raise of the first parameter with a lowering of the
second. -/
def Session.Lowers (s : Session) (q q' : GlobalParameter) : Prop :=
  ∃ sub ∈ s.bus.subscriptions, ∃ owner standing, sub.handler = .effect owner standing ∧
    standing.eventKind? = some (.parameterChanged q) ∧ netSteps q' standing.behavior.outputs < 0

section Parameter

variable {q q' : GlobalParameter} {change : ParameterChanged}

theorem stepsOf_applicable (effect : CardEffect) (owner : PlayerId) :
    stepsOf (effect.applicable owner (.parameterChanged q change)) =
      stepsOf effect.behavior.outputs := by
  refine stepsOf_filter _ fun item q hk => ?_
  simp [LineItem.concerns, Event.originator?, ResourceKind.isPassive, hk]

theorem Listener.Answers.isRaise {l : Listener} (h : l.Answers (.parameterChanged q change)) :
    change.isRaise = true := by
  cases l with
  | recorder | forcedAction => exact h.elim
  | effect owner standing =>
    have h : standing.behavior.condition?.any (·.isMetBy (.parameterChanged q change)) = true := h
    cases hc : standing.behavior.condition? with
    | none => simp [hc] at h
    | some c => exact (by simpa [hc, Condition.isMetBy] using h : _ ∧ change.isRaise = true).2

theorem Listener.Lowers.session {s : Session} {sub : Subscription Listener}
    (hs : sub ∈ s.bus.subscriptions) (ha : sub.handler.Answers (.parameterChanged q change))
    (h : sub.handler.Lowers (.parameterChanged q change) q') : s.Lowers q q' := by
  obtain ⟨id, kind, handler⟩ := sub
  cases handler with
  | recorder | forcedAction => exact h.elim
  | effect owner standing =>
    have ha : standing.behavior.condition?.any (·.isMetBy (.parameterChanged q change)) = true := ha
    cases hc : standing.behavior.condition? with
    | none => simp [hc] at ha
    | some c =>
      obtain ⟨hkind, -⟩ : c.kind.eventKind? = some (.parameterChanged q) ∧ _ := by
        simpa [hc, Condition.isMetBy] using ha
      refine ⟨_, hs, owner, standing, rfl, by simp [CardEffect.eventKind?, hc, hkind], ?_⟩
      have h : netSteps q' (standing.applicable owner (.parameterChanged q change)) < 0 := h
      rwa [netSteps, stepsOf_applicable] at h

theorem settles_lowering {book : Rulebook} (hr : book.rules.Valid)
    (hc : change.isRaise = false) (w : World) :
    Settles (fun depth => Engine.publishWithin book depth (.parameterChanged q change))
      (fun v => v.session.bus = w.session.bus ∧ ∀ j, v.slack book.rules j ≤ w.slack book.rules j) w := by
  refine Engine.settles_publish (fun s _ v hv => Engine.settles_takeTurn hr fun r u hu => ?_)
    ⟨rfl, fun _ => le_refl _⟩
  have ha : ¬ s.handler.Answers (.parameterChanged q change) := fun ha => by
    simp [ha.isRaise] at hc
  have huw : u.session.bus = w.session.bus ∧ ∀ j, u.slack book.rules j ≤ w.slack book.rules j :=
    ⟨hu.bus.trans hv.1, fun j => (hu.slack j fun h => ha h.1).trans (hv.2 j)⟩
  refine ⟨huw, fun events he => ?_⟩
  rw [hu.silent ha events he]
  exact Settles.pure huw

end Parameter

section Order

variable [LinearOrder GlobalParameter] {book : Rulebook} {w v u : World} {q : GlobalParameter}

/-- The subscriptions are those of `w`, and up to `q` the parameters are no further from their ends. -/
structure NoHigher (rules : Rules) (q : GlobalParameter) (w v : World) : Prop where
  bus : v.session.bus = w.session.bus
  slack : upTo q (v.slack rules) ≤ upTo q (w.slack rules)

/-- What an event that waits to be published has to do with: a raise has brought its parameter
nearer its end since `w`, if it counts for `q`. -/
def Due (rules : Rules) (q : GlobalParameter) (w v : World) (e : Event) : Prop :=
  ∃ q' change, e = .parameterChanged q' change ∧ (change.isRaise → q' ≤ q →
    upTo q' (v.slack rules) < upTo q' (w.slack rules))

theorem NoHigher.refl (rules : Rules) (q : GlobalParameter) (w : World) : NoHigher rules q w w :=
  ⟨rfl, le_refl _⟩

theorem settles_due (hr : book.rules.Valid) {es : List Event}
    (ih : ∀ j v, upTo j (v.slack book.rules) < upTo q (w.slack book.rules) →
      v.session.bus = w.session.bus → ∀ change : ParameterChanged, change.isRaise = true →
        Settles (fun depth => Engine.publishWithin book depth (.parameterChanged j change))
          (NoHigher book.rules j v) v)
    {e : Event} (he : e ∈ es) (hv : NoHigher book.rules q w v)
    (hes : ∀ e ∈ es, Due book.rules q w v e) :
    Settles (fun depth => Engine.publishWithin book depth e)
      (fun u => NoHigher book.rules q w u ∧ ∀ e ∈ es, Due book.rules q w u e) v := by
  obtain ⟨j, change, rfl, hdue⟩ := hes e he
  cases hc : change.isRaise with
  | false =>
    refine (settles_lowering hr hc v).mono fun u hu => ⟨⟨hu.1.trans hv.bus, ?_⟩, fun e' he' => ?_⟩
    · exact (upTo_le fun k _ => hu.2 k).trans hv.slack
    · obtain ⟨k, change', rfl, hk⟩ := hes e' he'
      exact ⟨k, change', rfl, fun hc' hkq => (upTo_le fun m _ => hu.2 m).trans_lt (hk hc' hkq)⟩
  | true =>
    have hbelow : upTo j (v.slack book.rules) < upTo q (w.slack book.rules) := by
      rcases le_or_gt j q with hjq | hqj
      · exact upTo_lt_of_lt (le_refl j) hjq (hdue hc hjq)
      · exact (upTo_lt_self hqj _).trans_le hv.slack
    refine (ih j v hbelow hv.bus change hc).mono fun u hu => ?_
    refine ⟨⟨hu.bus.trans hv.bus, ?_⟩, fun e' he' => ?_⟩
    · rcases le_or_gt j q with hjq | hqj
      · exact (upTo_lt_of_lt hjq hjq (hu.slack.trans_lt (hdue hc hjq))).le
      · exact (upTo_le_of_le hqj.le hu.slack).trans hv.slack
    · obtain ⟨k, change', rfl, hk⟩ := hes e' he'
      refine ⟨k, change', rfl, fun hc' hkq => ?_⟩
      rcases le_or_gt k j with hkj | hjk
      · exact (upTo_le_of_le hkj hu.slack).trans_lt (hk hc' hkq)
      · have hjq := hjk.le.trans hkq
        exact upTo_lt_of_lt hjk.le hjk.le (hu.slack.trans_lt (hdue hc hjq))

theorem settles_raise (hr : book.rules.Valid) (q : GlobalParameter) (w : World)
    (hl : ∀ q q', w.session.Lowers q q' → q < q') (change : ParameterChanged) :
    Settles (fun depth => Engine.publishWithin book depth (.parameterChanged q change))
      (NoHigher book.rules q w) w := by
  induction hm : upTo q (w.slack book.rules) using WellFoundedLT.induction generalizing q w change with
  | _ m ih =>
  subst hm
  refine Engine.settles_publish (fun s hs v hv => Engine.settles_takeTurn hr fun r u hu => ?_)
    (NoHigher.refl _ q w)
  have hs : s ∈ w.session.bus.subscriptions := (List.mem_filter.mp hs).1
  have hdown (k : GlobalParameter) (hk : k ≤ q) : u.slack book.rules k ≤ v.slack book.rules k := by
    refine hu.slack k fun ⟨ha, h⟩ => ?_
    exact absurd (hl q k (Listener.Lowers.session hs ha h)) (not_lt.mpr hk)
  have hwu : NoHigher book.rules q w u := ⟨hu.bus.trans hv.bus, (upTo_le hdown).trans hv.slack⟩
  refine ⟨hwu, fun events he => ?_⟩
  have hdue : ∀ e ∈ events, Due book.rules q w u e := fun e hm => by
    obtain ⟨j, change', rfl, hlt⟩ := hu.events events he e hm
    refine ⟨j, change', rfl, fun hc hjq => ?_⟩
    exact (upTo_lt (fun k hk => hdown k (hk.trans hjq)) (hlt hc)).trans_le
      (upTo_le_of_le hjq hv.slack)
  refine Settles.mono (Settles.forM
    (Q := fun u => NoHigher book.rules q w u ∧ ∀ e ∈ events, Due book.rules q w u e)
    (f := fun e depth => do let _ ← Engine.publishWithin book depth e)
    events ?_ ⟨hwu, hdue⟩) fun _ h => h.1
  intro e hm x hx
  refine Settles.bind (settles_due hr (fun j y hy hbus change' _ => ?_) hm hx.1 hx.2)
    fun _ _ h => Settles.pure h
  refine ih _ hy j y (fun k k' hk => ?_) change' rfl
  unfold Session.Lowers at hk
  rw [hbus] at hk
  exact hl k k' hk

theorem settles_event (hr : book.rules.Valid) (w : World)
    (hl : ∀ q q', w.session.Lowers q q' → q < q') (e : Event) :
    Settles (fun depth => Engine.publishWithin book depth e)
      (fun v => v.session.bus = w.session.bus) w := by
  refine Engine.settles_publish (fun s _ v hv => Engine.settles_takeTurn hr fun r u hu => ?_) rfl
  have hbus : u.session.bus = w.session.bus := hu.bus.trans hv
  refine ⟨hbus, fun events he => Settles.forM
    (f := fun e depth => do let _ ← Engine.publishWithin book depth e) events ?_ hbus⟩
  intro e' hm x hx
  obtain ⟨q, change, rfl, -⟩ := hu.events events he e' hm
  have hlx : ∀ q q', x.session.Lowers q q' → q < q' := fun k k' hk => by
    unfold Session.Lowers at hk
    rw [hx] at hk
    exact hl k k' hk
  exact ((settles_raise hr q x hlx change).mono fun y hy => hy.bus.trans hx).bind
    fun _ _ h => Settles.pure h

end Order

theorem exists_order {lowers : GlobalParameter → GlobalParameter → Prop}
    (h : ∀ q, ¬ Relation.TransGen lowers q q) :
    ∃ key : GlobalParameter → Nat, Function.Injective key ∧ ∀ q q', lowers q q' → key q < key q' := by
  classical
  let above (q : GlobalParameter) : Finset GlobalParameter :=
    Finset.univ.filter (Relation.TransGen lowers · q)
  let place (q : GlobalParameter) : Nat := GlobalParameter.all.idxOf q
  have hplace (q : GlobalParameter) : place q < 3 := by cases q <;> decide
  refine ⟨fun q => 3 * (above q).card + place q, fun q q' heq => ?_, fun q q' hq => ?_⟩
  · have := hplace q
    have := hplace q'
    have hpp : place q = place q' := by simp only at heq; omega
    cases q <;> cases q' <;> first | rfl | exact absurd hpp (by decide)
  · have hsub : above q ⊂ above q' := by
      refine Finset.ssubset_iff_subset_ne.mpr ⟨fun x hx => ?_, fun heq => ?_⟩
      · simp only [above, Finset.mem_filter, Finset.mem_univ, true_and] at hx ⊢
        exact hx.tail hq
      · have : q ∈ above q' := by simpa [above] using Relation.TransGen.single hq
        rw [← heq] at this
        exact h q (by simpa [above] using this)
    have := Finset.card_lt_card hsub
    have := hplace q
    show 3 * (above q).card + place q < 3 * (above q').card + place q'
    omega

/-- Publishing ends, for valid rules and in every state, if no parameter can come to be lowered in
answer to its own raise, directly or by way of others. -/
theorem publish_ends (book : Rulebook) (hr : book.rules.Valid) (w : World)
    (hl : ∀ q, ¬ Relation.TransGen w.session.Lowers q q) (e : Event) :
    ∃ depth n v, ∀ deeper ≥ depth, Engine.publishWithin book deeper e w = (.ok n, v) := by
  obtain ⟨key, hinj, hkey⟩ := exists_order hl
  let : LinearOrder GlobalParameter := LinearOrder.lift' key hinj
  obtain ⟨depth, n, v, -, h⟩ := settles_event hr w hkey e
  exact ⟨depth, n, v, h⟩

namespace Engine

variable {book : Rulebook} {depth : Nat} {e : Event} {s : Subscription Listener} {w v u : World}
  {stop : Stop}

theorem takeTurn_error {events : List Event} (hr : s.handler.react book e w = (.ok events, v))
    (h : (events.forM fun e => do let _ ← publishWithin book depth e : Engine Unit) v =
      (.error stop, u)) : takeTurn book depth e s w = (.error stop, u) := by
  have : outcome (s.handler.react book e) w = (.ok (.ok events), v) := by simp [outcome, hr]
  exact (Steps.bind_apply_ok this).trans (Steps.bind_apply_error h)

theorem publishWithin_error {rest : List (Subscription Listener)}
    (hl : w.session.bus.listeners e.kind = s :: rest) (hs : w.session.bus.isRegistered s.id = true)
    (h : takeTurn book depth e s w = (.error stop, u)) :
    publishWithin book (depth + 1) e w = (.error stop, u) := by
  show Bus.deliver isLive (takeTurn book depth e) (w.session.bus.listeners e.kind) w = _
  rw [hl, Bus.deliver_cons, Steps.bind_apply_ok (isLive_of_isRegistered hs)]
  exact Steps.bind_apply_error h

end Engine

/-! Effects that answer the raise of one parameter by lowering a second and raising a third. -/

namespace Seesaw

def trade (kind : ConditionKind) (down up : GlobalParameter) : CardEffect where
  card := "seesaw"
  name := "Seesaw"
  index := 0
  behavior := .passive { kind } [
    { kind := .globalParameter down, amount := -1 }, { kind := .globalParameter up, amount := 1 }]

def book : Rulebook where
  catalog := {}
  rules := { ratingPerStep := false }
  depth := 0

theorem valid : book.rules.Valid := fun q => by
  cases q <;> exact ⟨by decide, by decide, by decide, by decide⟩

/-- The game of a player who owns the effects. -/
def worldOf (effects : List CardEffect) (temperature oxygen : Int) : World where
  store := {
    games := [("game", { id := "game", parameters := { temperature, oxygen } })]
    rosters := [("game", [{ Player.named "player" with effects }])] }
  session := effects.foldl (fun s e => (s.subscribe "player" e).2) { game := "game" }

/-- Two effects that take back each other's raise. -/
def world : (temperature oxygen : Int) → World :=
  worldOf [trade .temperatureRaise .temperature .oxygen, trade .oxygenRaise .oxygen .temperature]

def change (q : GlobalParameter) (before after : Int) : Event :=
  .parameterChanged q { game := "game", before, after }

/-- Two worlds that reactions take into each other. Each listener that is called first answers a raise
by taking it back and raising what the other listens to. -/
structure Rocking (book : Rulebook) (warm breathable : World) : Prop where
  warmer : ∃ s rest, warm.session.bus.listeners (.parameterChanged .temperature) = s :: rest ∧
    warm.session.bus.isRegistered s.id = true ∧
    s.handler.react book (change .temperature (-30) (-28)) warm =
      (.ok [change .temperature (-28) (-30), change .oxygen 0 1], breathable)
  fresher : ∃ s rest, breathable.session.bus.listeners (.parameterChanged .oxygen) = s :: rest ∧
    breathable.session.bus.isRegistered s.id = true ∧
    s.handler.react book (change .oxygen 0 1) breathable =
      (.ok [change .oxygen 1 0, change .temperature (-30) (-28)], warm)
  colder (depth : Nat) : Engine.publishWithin book (depth + 1) (change .temperature (-28) (-30))
    breathable = (.ok 1, breathable)
  stuffier (depth : Nat) : Engine.publishWithin book (depth + 1) (change .oxygen 1 0) warm =
    (.ok 1, warm)

theorem publish_both {book : Rulebook} {depth : Nat} {first second : Event} {v : World}
    (hf : ∀ d, Engine.publishWithin book (d + 1) first v = (.ok 1, v))
    (hs : ∃ u, Engine.publishWithin book depth second v = (.error .tooDeep, u)) :
    ∃ u, ([first, second].forM fun e => do let _ ← Engine.publishWithin book depth e : Engine Unit) v =
      (.error .tooDeep, u) := by
  cases depth with
  | zero => exact ⟨v, rfl⟩
  | succ depth =>
    obtain ⟨u, hs⟩ := hs
    have hfirst : (do let _ ← Engine.publishWithin book (depth + 1) first : Engine Unit) v =
        (.ok (), v) := Steps.bind_apply_ok (hf depth)
    have hsecond : (do let _ ← Engine.publishWithin book (depth + 1) second : Engine Unit) v =
        (.error .tooDeep, u) := Steps.bind_apply_error hs
    refine ⟨u, ?_⟩
    exact (Steps.bind_apply_ok hfirst).trans (Steps.bind_apply_error hsecond)

theorem Rocking.tooDeep {book : Rulebook} {warm breathable : World}
    (h : Rocking book warm breathable) (depth : Nat) :
    (∃ v, Engine.publishWithin book depth (change .temperature (-30) (-28)) warm =
      (.error .tooDeep, v)) ∧
    (∃ v, Engine.publishWithin book depth (change .oxygen 0 1) breathable = (.error .tooDeep, v)) := by
  induction depth with
  | zero => exact ⟨⟨_, rfl⟩, ⟨_, rfl⟩⟩
  | succ depth ih =>
    obtain ⟨hwarm, hbreathe⟩ := ih
    obtain ⟨u, hu⟩ := publish_both h.colder hbreathe
    obtain ⟨v, hv⟩ := publish_both h.stuffier hwarm
    obtain ⟨_, _, hl, hs, hr⟩ := h.warmer
    obtain ⟨_, _, hl', hs', hr'⟩ := h.fresher
    exact ⟨⟨u, Engine.publishWithin_error hl hs (Engine.takeTurn_error hr hu)⟩,
      ⟨v, Engine.publishWithin_error hl' hs' (Engine.takeTurn_error hr' hv)⟩⟩

theorem rocking : Rocking book (world (-28) 0) (world (-30) 1) where
  warmer := ⟨_, _, rfl, rfl, rfl⟩
  fresher := ⟨_, _, rfl, rfl, rfl⟩
  colder _ := rfl
  stuffier _ := rfl

theorem publish_raises (depth : Nat) :
    (∃ v, Engine.publishWithin book depth (change .temperature (-30) (-28)) (world (-28) 0) =
      (.error .tooDeep, v)) ∧
    (∃ v, Engine.publishWithin book depth (change .oxygen 0 1) (world (-30) 1) =
      (.error .tooDeep, v)) := rocking.tooDeep depth

end Seesaw

/-- Publishing need not end, though the rules are valid: no depth of nesting is enough for the
seesaw. -/
theorem publish_endless : Seesaw.book.rules.Valid ∧
    ¬ ∃ depth n v, Engine.publishWithin Seesaw.book depth
      (Seesaw.change .temperature (-30) (-28)) (Seesaw.world (-28) 0) = (.ok n, v) := by
  refine ⟨Seesaw.valid, fun ⟨depth, n, v, h⟩ => ?_⟩
  obtain ⟨u, hu⟩ := (Seesaw.publish_raises depth).1
  cases hu.symm.trans h

/-- Raises of temperature and oceans bring each other about, and oxygen pays for both. -/
theorem publish_ends_at_oxygen :
    let w := Seesaw.worldOf [Seesaw.trade .temperatureRaise .oxygen .oceans,
      Seesaw.trade .oceanPlaced .oxygen .temperature] (-28) 9
    Seesaw.book.rules.Valid ∧ (∀ q, ¬ Relation.TransGen w.session.Lowers q q) ∧
      ∃ depth n v, ∀ deeper ≥ depth, Engine.publishWithin Seesaw.book deeper
        (Seesaw.change .temperature (-30) (-28)) w = (.ok n, v) := by
  intro w
  have hl : ∀ q q', w.session.Lowers q q' → q ≠ .oxygen ∧ q' = .oxygen := by
    rintro q q' ⟨sub, hsub, owner, standing, hs, hk, hn⟩
    rcases List.mem_pair.mp hsub with rfl | rfl <;> cases hs <;> revert q q' <;> decide
  have hcycle : ∀ q, ¬ Relation.TransGen w.session.Lowers q q := fun q h => by
    obtain ⟨r, hqr, -⟩ := Relation.TransGen.head'_iff.mp h
    obtain ⟨r', -, hrq⟩ := Relation.TransGen.tail'_iff.mp h
    exact (hl q r hqr).1 (hl r' q hrq).2
  exact ⟨Seesaw.valid, hcycle, publish_ends _ Seesaw.valid w hcycle _⟩

end MarsRules
