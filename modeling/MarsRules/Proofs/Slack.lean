import MarsRules.Proofs.Moves
import MarsRules.Proofs.Plans
import MarsRules.Proofs.Refusals

/-! How far each parameter can still rise, and what one reaction to an event does to that. -/

namespace MarsRules

open Steps (Keeps)

/-- How far a parameter can still rise. -/
def World.slack (rules : Rules) (w : World) (q : GlobalParameter) : Nat :=
  ((rules.range q).max - w.parameters.get q).toNat

namespace ParameterChange

variable {rules : Rules} {q : GlobalParameter} {current n : Int} {c : ParameterChange}

theorem after_eq (h : of? rules q current n = some c) :
    c.after = max (rules.range q).min (min (rules.range q).max
      (saturateInt32 (current + saturateInt32 (n * (rules.range q).step)))) := by
  obtain ⟨after, ha, rfl⟩ := Option.map_eq_some_iff.mp h
  unfold ParameterRange.clamp? at ha
  split at ha
  · exact (Option.some.inj ha).symm
  · cases ha

theorem slack_after_le (hr : (rules.range q).Valid) (h : of? rules q current n = some c)
    (hn : 0 ≤ n) : ((rules.range q).max - c.after).toNat ≤ ((rules.range q).max - current).toNat := by
  rw [after_eq h]
  have hs : 0 ≤ n * (rules.range q).step := Int.mul_nonneg hn (by have := hr.step; omega)
  have := hr.max
  have := hr.ends
  simp only [saturateInt32, FitsInt32, minInt32, maxInt32] at *
  omega

theorem after_le_max (hr : (rules.range q).Valid) (h : of? rules q current n = some c) :
    c.after ≤ (rules.range q).max := by
  rw [after_eq h]
  have := hr.ends
  omega

end ParameterChange

namespace Plan

variable {plan : Plan} {rules : Rules} {w v : World}

theorem write_ok_parameters {listening : Bool} {noted : List Change} {changes : List ParameterChange}
    {t : World × List Change} (he : plan.effects = [])
    (h : plan.write rules listening (w, noted) = (.ok changes, t)) :
    changes = ParameterChange.ofSteps rules w.parameters plan.parameters ∧
      t.1.parameters = w.parameters.after changes := by
  obtain ⟨player, u, hu, h⟩ := Steps.bind_eq_ok.mp h
  obtain ⟨_, x, hx, h⟩ := Steps.bind_eq_ok.mp h
  obtain ⟨changes', y, hy, h⟩ := Steps.bind_eq_ok.mp h
  obtain ⟨_, z, hz, h⟩ := Steps.bind_eq_ok.mp h
  obtain ⟨rfl, rfl⟩ := Steps.pure_eq_ok.mp h
  have hu : Recorded Entry.Plain _ u := (Noted.alike_recorded (Engine.readPlayer_alike _)).apply hu
  have hx := (writeRecord_recorded plan player (fun _ => id) he listening).apply hx
  have hz := (writeDraw_recorded plan player fun _ => id).apply hz
  have hw : x.1.parameters = w.parameters :=
    hx.wrote.parameters_of_plain.trans hu.wrote.parameters_of_plain
  obtain ⟨hch, hpar, -⟩ := Noted.applySteps_ok (show Noted.applySteps _ _ _ (x.1, x.2) = _ from hy)
  rw [hw] at hch hpar
  exact ⟨hch, hz.wrote.parameters_of_plain.trans hpar⟩

theorem commit_ok_parameters {listening : Bool} {events : List Event} (he : plan.effects = [])
    (h : plan.commit rules listening w = (.ok events, v)) :
    ∃ changes, changes = ParameterChange.ofSteps rules w.parameters plan.parameters ∧
      v.parameters = w.parameters.after changes ∧ events = changes.map (·.event v.game) := by
  obtain ⟨changes, u, hu, h⟩ := Steps.bind_eq_ok.mp h
  obtain ⟨g, u', hg, h⟩ := Steps.bind_eq_ok.mp h
  cases hg
  obtain ⟨rfl, rfl⟩ := Steps.pure_eq_ok.mp h
  obtain ⟨noted, hw⟩ := transact_ok hu
  obtain ⟨hch, hpar⟩ := write_ok_parameters he hw
  exact ⟨changes, hch, hpar, rfl⟩

/-- A parameter that is not taken down comes no further from its end, whatever becomes of the plan. -/
theorem commit_slack_le {items : List LineItem} {q : GlobalParameter} {r : Except Stop (List Event)}
    {listening : Bool} (hr : rules.Valid) (he : plan.effects = [])
    (hparameters : plan.parameters = addAllSteps (stepsOf items) []) (hq : 0 ≤ netSteps q items)
    (h : plan.commit rules listening w = (r, v)) : v.slack rules q ≤ w.slack rules q := by
  have hwrote := plan.commit_wrote he rules listening w
  rw [h] at hwrote
  unfold World.slack
  rcases hwrote.parameter_moves q with hs | ⟨n, c, hm, hof, hs⟩
  · exact Nat.le_of_eq (by rw [hs])
  · rw [hs]
    rw [hparameters] at hm
    exact ParameterChange.slack_after_le (hr q) hof (eq_netSteps hm ▸ hq)

/-- What a plan announces is the changes it has made, and a raise brings its parameter nearer its end. -/
theorem commit_ok_slack {items : List LineItem} {listening : Bool} {events : List Event}
    (hr : rules.Valid) (he : plan.effects = [])
    (hparameters : plan.parameters = addAllSteps (stepsOf items) [])
    (h : plan.commit rules listening w = (.ok events, v)) :
    ∀ e ∈ events, ∃ q change, e = .parameterChanged q change ∧
      (change.isRaise → v.slack rules q < w.slack rules q) := by
  obtain ⟨changes, hch, hpar, rfl⟩ := commit_ok_parameters he h
  intro e' he'
  obtain ⟨c, hcm, rfl⟩ := List.mem_map.mp he'
  refine ⟨c.parameter, _, rfl, fun hraise => ?_⟩
  have hnodup : (changes.map (·.parameter)).Nodup := by
    rw [hch, hparameters]
    exact ParameterChange.ofSteps_nodup (nodup_addAllSteps _ (by simp))
  have hafter : v.parameters.get c.parameter = c.after := by
    rw [hpar, Parameters.get_after_of_mem hnodup hcm]
  obtain ⟨n, -, -, hof, -⟩ := ParameterChange.mem_ofSteps.mp (hch ▸ hcm)
  have hbefore := (ParameterChange.of?_eq_some hof).2
  have hmax := ParameterChange.after_le_max (hr c.parameter) hof
  have hraise : c.before < c.after := by simpa [ParameterChanged.isRaise] using hraise
  unfold World.slack
  rw [hafter]
  omega

end Plan

/-- What a reaction does to the counters that publishing depends on. Only one that `answers` the
event gives rise to anything; it may take a parameter that it `lowers` further from its end, and a
raise that it gives rise to has brought its parameter nearer. -/
structure Reaction (rules : Rules) (answers : Prop) (lowers : GlobalParameter → Prop) (w : World)
    (r : Except Stop (List Event)) (v : World) : Prop where
  stop : ∀ stop, r = .error stop → stop.IsRefusal
  bus : v.session.bus = w.session.bus
  slack : ∀ q, ¬ (answers ∧ lowers q) → v.slack rules q ≤ w.slack rules q
  silent : ¬ answers → ∀ events, r = .ok events → events = []
  events : ∀ events, r = .ok events → ∀ e ∈ events, ∃ q change,
    e = .parameterChanged q change ∧ (change.isRaise → v.slack rules q < w.slack rules q)

theorem Reaction.of_plain {rules : Rules} {answers : Prop} {lowers : GlobalParameter → Prop}
    {w v : World} {r : Except Stop (List Event)} (hs : ∀ stop, r = .error stop → stop.IsRefusal)
    (hv : World.Wrote Entry.Plain w v) (he : ∀ events, r = .ok events → events = []) :
    Reaction rules answers lowers w r v where
  stop := hs
  bus := hv.bus
  silent _ := he
  slack q _ := by rw [World.slack, hv.parameters_of_plain]; exact Nat.le_refl _
  events events hr e hm := by rw [he events hr] at hm; cases hm

namespace CardEffect

variable {rules : Rules} {effect : CardEffect} {owner : PlayerId} {e : Event} {w v : World}
  {r : Except Stop (List Event)}

def Answers (effect : CardEffect) (e : Event) : Prop :=
  effect.behavior.condition?.any (·.isMetBy e) = true

/-- For this owner, the answer to the event takes the parameter down. -/
def Lowers (effect : CardEffect) (owner : PlayerId) (e : Event) (q : GlobalParameter) : Prop :=
  netSteps q (effect.applicable owner e) < 0

theorem react_cases (h : effect.react rules owner e w = (r, v)) :
    (World.Alike w v ∧ ∀ events, r = .ok events → events = []) ∨
      ∃ player plan u, effect.Answers e ∧ player.id = owner ∧
        effect.plan player e = .ok plan ∧ World.Alike w u ∧ plan.commit rules false u = (r, v) := by
  replace h : (if !effect.firesOn w.game e then _ else _ : Engine (List Event)) w = (r, v) := h
  split at h
  · cases h
    exact .inl ⟨Std.Refl.refl _, by simp⟩
  next hfires =>
  have hmet : effect.Answers e := by simp_all [firesOn, Answers]
  rcases hp : Engine.readPlayer owner w with ⟨stop | player, u⟩
  · rw [Steps.bind_apply_error hp] at h
    cases h
    exact .inl ⟨(Engine.readPlayer_alike owner).apply hp, by simp⟩
  obtain ⟨hplayer, hu⟩ := Engine.readPlayer_ok hp
  rw [Steps.bind_apply_ok hp] at h
  cases hplan : effect.plan player e with
  | error refusal =>
    rw [hplan, Steps.bind_apply_error (show Engine.ofExcept (.error refusal) u = _ from rfl)] at h
    cases h
    exact .inl ⟨hu, by simp⟩
  | ok plan =>
    rw [hplan, Steps.bind_apply_ok (show Engine.ofExcept (.ok plan) u = _ from rfl)] at h
    split at h
    · cases h
      exact .inl ⟨hu, by simp⟩
    · exact .inr ⟨player, plan, u, hmet, World.player?_id hplayer, hplan, hu, h⟩

theorem react_reaction (hr : rules.Valid) (h : effect.react rules owner e w = (r, v)) :
    Reaction rules (effect.Answers e) (effect.Lowers owner e) w r v := by
  have hstop : ∀ stop, r = .error stop → stop.IsRefusal := fun stop hs =>
    effect.react_stops hr.ordered owner e w stop v (hs ▸ h)
  rcases react_cases h with ⟨hv, he⟩ | ⟨player, plan, u, hmet, rfl, hplan, hu, hc⟩
  · exact .of_plain hstop hv.wrote he
  have hgains := Plan.addOutputs_gains hplan
  have heffects : plan.effects = [] := hgains.effects
  have hparameters : plan.parameters =
      Plan.addAllSteps (stepsOf (effect.applicable player.id e)) [] := hgains.parameters
  have hwu (q : GlobalParameter) : u.slack rules q = w.slack rules q := by
    rw [World.slack, hu.parameters, World.slack]
  have hwrote := plan.commit_wrote heffects rules false u
  rw [hc] at hwrote
  refine ⟨hstop, hwrote.bus.trans (congrArg Session.bus hu.session), fun q hq => ?_,
    fun hn => absurd hmet hn, ?_⟩
  · have hn : 0 ≤ netSteps q (effect.applicable player.id e) := by
      simp only [Lowers, hmet, true_and] at hq
      omega
    exact hwu q ▸ Plan.commit_slack_le hr heffects hparameters hn hc
  · rintro events rfl e' he'
    obtain ⟨q, change, rfl, hraise⟩ := Plan.commit_ok_slack hr heffects hparameters hc e' he'
    exact ⟨q, change, rfl, hwu q ▸ hraise⟩

end CardEffect

def Listener.Answers (l : Listener) (e : Event) : Prop :=
  match l with
  | .effect _ standing => standing.Answers e
  | _ => False

def Listener.Lowers (l : Listener) (e : Event) (q : GlobalParameter) : Prop :=
  match l with
  | .effect owner standing => standing.Lowers owner e q
  | _ => False

theorem Listener.react_reaction {book : Rulebook} (hr : book.rules.Valid) {l : Listener} {e : Event}
    {w v : World} {r : Except Stop (List Event)} (h : l.react book e w = (r, v)) :
    Reaction book.rules (l.Answers e) (l.Lowers e) w r v := by
  have hstop : ∀ stop, r = .error stop → stop.IsRefusal := fun stop hs =>
    l.react_stops hr.ordered e w stop v (hs ▸ h)
  cases l with
  | recorder =>
    cases h
    exact .of_plain hstop ⟨rfl, rfl, rfl, Std.Refl.refl _⟩ (by simp)
  | forcedAction =>
    refine .of_plain hstop ?_ fun events he => ?_
    · exact ((Engine.watchForced_wrote (fun _ => Entry.Offers.plain) _ _).bind fun _ => Steps.Keeps.pure _).apply h
    · subst he
      obtain ⟨_, u, -, h⟩ := Steps.bind_eq_ok.mp h
      exact (Steps.pure_eq_ok.mp h).1.symm
  | effect owner standing => exact standing.react_reaction hr h

end MarsRules
