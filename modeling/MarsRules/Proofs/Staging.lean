import Mathlib.Data.List.Induction
import MarsRules.Proofs.Played

/-! Items that are added to a plan one after the other, each in a scope of its own, as outputs or as
inputs. An item is refused for where its tokens are to go and for nothing else (`Plan.stage_eq_error`), and
then it might as well not have been there. What the plan holds in the end is the sum of the others
(`Plan.Gathers`), as far as 32 bits keep it, with no parameter in it twice, so that writing the plan moves each by its whole total
(`Plan.commit_moves`). -/

namespace MarsRules

open Steps (Keeps)

/-- An item that is added to a plan. -/
inductive Staged where
  | output (item : LineItem) (scope : Scope)
  | input (item : LineItem) (scope : Scope)

/-- Why tokens cannot go where the item says, if they cannot. -/
def LineItem.misplaced? (item : LineItem) (scope : Scope) : Option Refusal :=
  match item.target with
  | none | some .selfCard => none
  | some .anyCard =>
    (scope.target.filter fun card => card ≠ "" ∧ card ∉ scope.played).map .storageTargetNotFound
  | some other => some (.unsupported s!"card storage output with target {other.title}")

namespace Staged

def scope : Staged → Scope
  | output _ scope | input _ scope => scope

/-- The item as an output: an input takes what an output of as much less gives. -/
def outputs : Staged → List LineItem
  | output item _ => [item]
  | input item _ => chargesOf [item]

/-- Why the item is refused, if it is. -/
def refusal? (i : Staged) : Option Refusal :=
  (ownOutputs i.outputs).findSome? fun item => match item.kind with
    | .cardStorage _ => item.misplaced? i.scope
    | _ => none

/-- The tokens that the item puts on cards. -/
def tokens (i : Staged) : List (CardId × Int) := tokensOf i.scope i.outputs

end Staged

/-- The items that are not refused. -/
def accepted (staged : List Staged) : List Staged := staged.filter (·.refusal?.isNone)

/-- What they come to as outputs. -/
def outputsOf (staged : List Staged) : List LineItem := (accepted staged).flatMap (·.outputs)

namespace Plan

variable {p p' : Plan} {i : Staged} {staged : List Staged} {scope : Scope} {item : LineItem} {e : Refusal}

def stage (p : Plan) : Staged → Except Refusal Plan
  | .output item scope => p.addOutput item scope
  | .input item scope => p.addInput item scope

/-- Adds the item, or leaves the plan as it is where it is refused. -/
def attempt (p : Plan) (i : Staged) : Plan :=
  match p.stage i with
  | .ok p' => p'
  | .error _ => p

def stageAll (p : Plan) (staged : List Staged) : Plan := staged.foldl attempt p

theorem storageTarget?_eq_error : storageTarget? item scope = .error e ↔ item.misplaced? scope = some e := by
  unfold storageTarget? LineItem.misplaced?
  cases item.target with
  | none => simp
  | some target =>
    cases target with
    | selfCard => simp
    | anyCard =>
      cases scope.target with
      | none => simp
      | some card =>
        by_cases hcard : card = "" <;> by_cases hplayed : card ∈ scope.played <;>
          simp [hcard, hplayed, Option.filter]
    | _ => simp

theorem addOutput_eq_error : p.addOutput item scope = .error e ↔
    (Staged.output item scope).refusal? = some e := by
  unfold addOutput Staged.refusal? Staged.outputs
  cases hother : item.chargesOther with
  | true => simp [ownOutputs, hother]
  | false =>
    have hown : ownOutputs [item] = [item] := by simp [ownOutputs, hother]
    cases hkind : item.kind with
    | cardStorage =>
      have hrefusal : (ownOutputs [item]).findSome? (fun item => match item.kind with
          | .cardStorage _ => item.misplaced? scope
          | _ => none) = item.misplaced? scope := by
        simp [hown, hkind]
      refine Iff.trans ?_ (storageTarget?_eq_error.trans (Eq.congr_left hrefusal.symm))
      rcases storageTarget? item scope with _ | _ | _ <;> simp [bind, Except.bind, pure, Except.pure]
    | _ => simp [hown, hkind]

theorem outputs_input (item : LineItem) (scope : Scope) : (p.stage (.input item scope) = .ok p ∧
      (Staged.input item scope).outputs = []) ∨
    ∃ cost, p.stage (.input item scope) = p.addOutput cost scope ∧
      (Staged.input item scope).outputs = [cost] := by
  unfold stage addInput Staged.outputs chargesOf
  cases hkind : item.kind
  case resource | production | cardStorage =>
    exact .inr ⟨item.charge, by simp [hkind]⟩
  all_goals exact .inl (by simp [hkind])

theorem stage_eq_error : p.stage i = .error e ↔ i.refusal? = some e := by
  cases i with
  | output item scope => exact addOutput_eq_error
  | input item scope =>
    rcases outputs_input (p := p) item scope with ⟨hstage, hnone⟩ | ⟨cost, hstage, hcost⟩
    · simp [hstage, Staged.refusal?, hnone, ownOutputs]
    · rw [hstage, addOutput_eq_error]
      unfold Staged.refusal?
      rw [hcost]
      rfl

theorem stage_gains (h : p.stage i = .ok p') : Gains i.scope p i.outputs [] [] p' := by
  cases i with
  | output item scope => exact addOutput_gains h
  | input item scope => exact addInput_gains h

theorem attempt_of_ok (h : p.stage i = .ok p') : p.attempt i = p' := by
  rw [attempt, h]

theorem attempt_of_error (h : p.stage i = .error e) : p.attempt i = p := by
  rw [attempt, h]

theorem stageAll_append (p : Plan) (before after : List Staged) :
    p.stageAll (before ++ after) = (p.stageAll before).stageAll after := List.foldl_append ..

theorem stageAll_concat (p : Plan) (staged : List Staged) (i : Staged) :
    p.stageAll (staged ++ [i]) = (p.stageAll staged).attempt i := stageAll_append ..

theorem stageAll_refused (p : Plan) (before after : List Staged) (h : i.refusal? ≠ none) :
    p.stageAll (before ++ i :: after) = p.stageAll (before ++ after) := by
  obtain ⟨e, he⟩ := Option.ne_none_iff_exists'.mp h
  rw [stageAll_append, stageAll_append]
  show stageAll ((p.stageAll before).attempt i) after = _
  rw [attempt_of_error (stage_eq_error.mpr he)]

/-- What a plan that was blank holds once the items have been added. -/
structure Gathers (staged : List Staged) (p : Plan) : Prop where
  production : ∀ r, p.production.get r = wrapInt32 (sumOf (.production r) (outputsOf staged))
  resources : ∀ r, p.resources.get r = wrapInt32 (sumOf (.resource r) (outputsOf staged))
  rating : p.rating = wrapInt32 (sumOf .terraformRating (outputsOf staged))
  tiles : p.tiles = tilesOf (outputsOf staged)
  draw : p.draw = saturateNat32 (drawsOf (outputsOf staged))
  parameters : p.parameters = addAllSteps (stepsOf (outputsOf staged)) []
  storage : p.storage = (accepted staged).flatMap (·.tokens)

theorem Gathers.blank (player : PlayerId) (source : CardId) : Gathers [] { player, source } where
  production := ResourceSet.get_zero
  resources := ResourceSet.get_zero
  rating := rfl
  tiles := rfl
  draw := rfl
  parameters := rfl
  storage := rfl

theorem Gathers.refused (h : Gathers staged p) (hi : i.refusal? ≠ none) : Gathers (staged ++ [i]) p := by
  have hsame : accepted (staged ++ [i]) = accepted staged := by
    simp [accepted, List.filter_append, hi]
  have houtputs : outputsOf (staged ++ [i]) = outputsOf staged := by rw [outputsOf, hsame, outputsOf]
  exact ⟨by rw [houtputs]; exact h.production, by rw [houtputs]; exact h.resources,
    by rw [houtputs]; exact h.rating, by rw [houtputs]; exact h.tiles, by rw [houtputs]; exact h.draw,
    by rw [houtputs]; exact h.parameters, by rw [hsame]; exact h.storage⟩

theorem Gathers.stage (h : Gathers staged p) (hi : p.stage i = .ok p') : Gathers (staged ++ [i]) p' := by
  have hnone : i.refusal? = none := by
    cases he : i.refusal? with
    | none => rfl
    | some e => cases (stage_eq_error.mpr he).symm.trans hi
  have hmore : accepted (staged ++ [i]) = accepted staged ++ [i] := by
    simp [accepted, List.filter_append, hnone]
  have houtputs : outputsOf (staged ++ [i]) = outputsOf staged ++ i.outputs := by
    simp [outputsOf, hmore]
  have hgains := stage_gains hi
  exact {
    production r := by
      rw [houtputs, sumOf_append]
      exact (h.production r ▸ hgains.production r).of_wrap
    resources r := by
      rw [houtputs, sumOf_append]
      exact (h.resources r ▸ hgains.resources r).of_wrap
    rating := by
      rw [houtputs, sumOf_append]
      exact (h.rating ▸ hgains.rating).of_wrap
    tiles := by rw [hgains.tiles, h.tiles, houtputs, tilesOf_append]
    draw := by
      have hdraw : p.draw ≤ maxNat32 := h.draw ▸ Nat.min_le_left ..
      have hsum := saturateNat32_add 0 (drawsOf (outputsOf staged)) (drawsOf i.outputs)
      rw [Nat.zero_add, Nat.zero_add] at hsum
      rw [hgains.draw hdraw, h.draw, hsum, houtputs, drawsOf_append]
    parameters := by
      rw [hgains.parameters, h.parameters, houtputs, stepsOf_append]
      exact (List.foldl_append ..).symm
    storage := by
      rw [hgains.storage, h.storage, hmore]
      simp [Staged.tokens] }

theorem gathers_stageAll (player : PlayerId) (source : CardId) (staged : List Staged) :
    Gathers staged (({ player, source } : Plan).stageAll staged) := by
  induction staged using List.reverseRecOn with
  | nil => exact .blank player source
  | append_singleton staged i ih =>
    rw [stageAll_concat]
    cases hi : (({ player, source } : Plan).stageAll staged).stage i with
    | ok p =>
      rw [attempt_of_ok hi]
      exact ih.stage hi
    | error e =>
      rw [attempt_of_error hi]
      exact ih.refused (by simp [stage_eq_error.mp hi])

theorem Gathers.lookup (h : Gathers staged p) (q : GlobalParameter) : p.parameters.lookup q =
    sumInt32 (((ownOutputs (outputsOf staged)).filter (·.kind == .globalParameter q)).map (·.amount)) := by
  rw [h.parameters, lookup_addAllSteps, steps_eq_amounts]
  rfl

theorem Gathers.once (h : Gathers staged p) : (p.parameters.map (·.1)).Nodup := by
  rw [h.parameters]
  exact nodup_addAllSteps _ List.nodup_nil

theorem holder?_of_placed {card : CardId} (h : item.misplaced? scope = none)
    (hcard : item.holder? scope = some card) : card = scope.card ∨ card ∈ scope.played := by
  unfold LineItem.holder? at hcard
  split at hcard
  · next htarget =>
    obtain ⟨hchosen, hne⟩ := Option.filter_eq_some_iff.mp hcard
    simp only [LineItem.misplaced?, htarget, hchosen, Option.map_eq_none_iff] at h
    -- a chosen card that was not played would have had the item refused
    by_contra hneither
    have hplayed : card ∉ scope.played := fun hmem => hneither (.inr hmem)
    simp [Option.filter, hplayed] at h
    simp [h] at hne
  · exact .inl (Option.some.inj hcard).symm

theorem Gathers.targets (h : Gathers staged p) : ∀ entry ∈ p.storage, ∃ i ∈ staged, entry ∈ i.tokens ∧
    (entry.1 = i.scope.card ∨ entry.1 ∈ i.scope.played) := by
  intro entry hentry
  rw [h.storage] at hentry
  obtain ⟨i, hi, hentry⟩ := List.mem_flatMap.mp hentry
  obtain ⟨hmem, haccepted⟩ := List.mem_filter.mp hi
  refine ⟨i, hmem, hentry, ?_⟩
  obtain ⟨item, hitem, htokens⟩ := List.mem_filterMap.mp hentry
  have hplaced := List.findSome?_eq_none_iff.mp (Option.isNone_iff_eq_none.mp haccepted) item hitem
  cases hkind : item.kind <;> simp only [hkind] at htokens hplaced <;> try cases htokens
  case cardStorage =>
    obtain ⟨card, hcard, rfl⟩ := Option.map_eq_some_iff.mp htokens
    exact holder?_of_placed hplaced hcard

end Plan

/-- The same game, its parameters as they were. -/
structure World.Steady (w v : World) : Prop where
  game : v.game = w.game
  parameters : v.parameters = w.parameters

instance : Std.Refl World.Steady := ⟨fun _ => ⟨rfl, rfl⟩⟩

instance : Trans World.Steady World.Steady World.Steady :=
  ⟨fun h h' => ⟨h'.game.trans h.game, h'.parameters.trans h.parameters⟩⟩

/-- Only records of players have been written, and subscriptions made. -/
def Steady (s t : World × List Change) : Prop := s.1.Steady t.1

instance : Std.Refl Steady := ⟨fun s => Std.Refl.refl s.1⟩

instance : Trans Steady Steady Steady := ⟨fun h h' => (Trans.trans h h' : World.Steady _ _)⟩

theorem Recorded.steady {ok : Entry → Prop} (hok : ∀ q n, ¬ ok (.parameter q n)) {s t : World × List Change}
    (h : Recorded ok s t) : Steady s t :=
  ⟨h.wrote.game, h.wrote.parameters_of_player hok⟩

theorem Recorded.steady_of_plain {s t : World × List Change} (h : Recorded Entry.Plain s t) : Steady s t :=
  h.steady fun _ _ => id

namespace Noted

theorem note_steady (c : Change) : Keeps Steady (note c) := fun s => (Std.Refl.refl s.1 : World.Steady _ _)

theorem changeSession_steady {f : Session → Session} (hf : ∀ d, (f d).game = d.game) :
    Keeps Steady (Engine.changeSession f : Noted Unit) := by
  rintro ⟨w, noted⟩
  refine ⟨hf w.session, ?_⟩
  show w.records.parameters (f w.session).game = w.records.parameters w.session.game
  rw [hf]

theorem subscribe_steady (owner : PlayerId) (seen : List CardId) (effects : List CardEffect) :
    Keeps Steady (subscribe owner seen effects) := by
  induction effects generalizing seen with
  | nil => exact Keeps.pure _
  | cons e rest ih =>
    refine Keeps.bind (Keeps.when (note_steady _) _) fun _ => ?_
    exact (changeSession_steady fun d => d.subscribe_game owner e).bind fun _ => ih _

end Noted

namespace Plan

variable (plan : Plan) (player : Player)

theorem writeEffects_steady (listening : Bool) : Keeps Steady (plan.writeEffects player listening) := by
  have hwrite (effects : List CardEffect) : Keeps Steady (Noted.overwrite player (.effects effects)) := by
    intro s
    have hrecorded : Recorded (fun e => ∀ q n, e ≠ .parameter q n) s
        (Noted.overwrite player (.effects effects) s).2 :=
      Noted.overwrite_recorded (fun _ _ _ _ => nofun) s
    exact hrecorded.steady fun q n hne => hne q n rfl
  exact Keeps.when ((hwrite _).bind fun _ => (Noted.subscribe_steady _ _ _).when _) _

theorem writeRecord_steady (listening : Bool) : Keeps Steady (plan.writeRecord player listening) := by
  have hplain : ∀ e, Entry.Plain e → Entry.Plain e := fun _ => id
  refine Keeps.bind (fun s => (writeProduction_recorded plan player hplain s).steady_of_plain) fun _ => ?_
  refine Keeps.bind (fun s => (writeActions_recorded plan player hplain s).steady_of_plain) fun _ => ?_
  refine (writeEffects_steady plan player listening).bind fun _ => ?_
  exact fun s => (writeAfterEffects_recorded plan player hplain s).steady_of_plain

theorem commit_moves {plan : Plan} {rules : Rules} {listening : Bool} {w v : World} {events : List Event}
    (h : plan.commit rules listening w = (.ok events, v)) : rules.Admits plan.parameters ∧
      v.parameters = w.parameters.after (ParameterChange.ofSteps rules w.parameters plan.parameters) := by
  obtain ⟨changes, u, hwrite, h⟩ := Steps.bind_eq_ok.mp h
  obtain ⟨g, _, hid, h⟩ := Steps.bind_eq_ok.mp h
  cases hid
  obtain ⟨-, rfl⟩ := Steps.pure_eq_ok.mp h
  obtain ⟨noted, hwrite⟩ := transact_ok hwrite
  obtain ⟨player, s₁, hplayer, hwrite⟩ := Steps.bind_eq_ok.mp hwrite
  obtain ⟨_, s₂, hrecord, hwrite⟩ := Steps.bind_eq_ok.mp hwrite
  obtain ⟨moved, s₃, hsteps, hwrite⟩ := Steps.bind_eq_ok.mp hwrite
  obtain ⟨_, s₄, hdraw, hwrite⟩ := Steps.bind_eq_ok.mp hwrite
  obtain ⟨rfl, rfl⟩ := Steps.pure_eq_ok.mp hwrite
  have hplain : ∀ e, Entry.Plain e → Entry.Plain e := fun _ => id
  have hread : Steady (w, []) s₁ :=
    ((Noted.alike_recorded (Engine.readPlayer_alike plan.player)).apply hplayer).steady_of_plain
  have hbefore : Steady (w, []) s₂ :=
    Trans.trans hread ((plan.writeRecord_steady player listening).apply hrecord)
  have hsteps : Noted.applySteps rules plan.player plan.parameters (s₂.1, s₂.2) = (.ok moved, s₃) := hsteps
  obtain ⟨rfl, hmoved, -⟩ := Noted.applySteps_ok hsteps
  have hafter : Steady s₃ (u, noted) :=
    ((writeDraw_recorded plan player hplain).apply hdraw).steady_of_plain
  refine ⟨Noted.applySteps_admits hsteps, ?_⟩
  rw [show u.parameters = s₃.1.parameters from hafter.parameters, hmoved,
    show s₂.1.parameters = w.parameters from hbefore.parameters]

/-- Items that are added to a plan in turn, each in its own scope, with those that are refused leaving no
trace: what the plan holds is the sum of the others, its tokens go to cards that are there, no parameter is
in it twice, and so any plan with these parameters moves each of them by its whole total when it is
committed. -/
theorem stageAll_gathers (player : PlayerId) (source : CardId) (staged : List Staged) :
    let p := ({ player, source } : Plan).stageAll staged
    Gathers staged p ∧
      (∀ q, p.parameters.lookup q = sumInt32
        (((ownOutputs (outputsOf staged)).filter (·.kind == .globalParameter q)).map (·.amount))) ∧
      (p.parameters.map (·.1)).Nodup ∧
      (∀ entry ∈ p.storage, ∃ i ∈ staged, entry ∈ i.tokens ∧
        (entry.1 = i.scope.card ∨ entry.1 ∈ i.scope.played)) ∧
      (∀ i (p' : Plan) e, p'.stage i = .error e ↔ i.refusal? = some e) ∧
      (∀ before i after, staged = before ++ i :: after → i.refusal? ≠ none →
        p = ({ player, source } : Plan).stageAll (before ++ after)) ∧
      ∀ (plan : Plan) rules listening w events v, plan.parameters = p.parameters →
        plan.commit rules listening w = (.ok events, v) → ∀ q, v.parameters.get q =
          let steps := (p.parameters.lookup q).getD 0
          if steps = 0 then w.parameters.get q else rules.moved q (w.parameters.get q) steps := by
  have hgathers := gathers_stageAll player source staged
  refine ⟨hgathers, hgathers.lookup, hgathers.once, hgathers.targets, fun _ _ _ => stage_eq_error, ?_, ?_⟩
  · rintro before i after rfl hi
    exact stageAll_refused _ before after hi
  · intro plan rules listening w events v hsame h q
    obtain ⟨hadmits, hmoved⟩ := commit_moves h
    rw [hsame, hgathers.parameters] at hadmits hmoved
    have htotal : (({ player, source } : Plan).stageAll staged).parameters.lookup q =
        sumInt32 (((stepsOf (outputsOf staged)).filter (·.1 == q)).map (·.2)) := by
      rw [hgathers.lookup, steps_eq_amounts]
    rw [hmoved, htotal]
    exact moved_of_ofSteps hadmits q

/-- Steps up and down, a cost, tokens for a card that was not played, and a loss for somebody else. -/
def errands : List Staged :=
  let scope : Scope := { card := "mill", played := ["lab"], target := some "zoo" }
  [.output { kind := .globalParameter .temperature, amount := 3 } scope,
    .output { kind := .cardStorage .microbes, amount := 1, target := some .anyCard } scope,
    .input { kind := .cardStorage .microbes, amount := 2, target := some .anyCard }
      { scope with target := some "lab" },
    .input { kind := .resource .energy, amount := 1 } scope,
    .output { kind := .resource .plants, amount := -3, target := some .anyPlayer } scope,
    .output { kind := .globalParameter .temperature, amount := -1 } scope]

theorem stageAll_gathers_errands :
    let p := ({ player := "anna", source := "mill" } : Plan).stageAll errands
    let w : World := {
      store := {
        games := [("game", { id := "game" })]
        rosters := [("game", [{ Player.named "anna" with storage := [("lab", 2)] }])] }
      session := { game := "game" } }
    p.storage = [("lab", -2)] ∧ p.resources.get .energy = -1 ∧ p.resources.get .plants = 0 ∧
      p.parameters.lookup .temperature = some 2 ∧
      (p.commit {} true w).2.parameters.get .temperature = -26 := by
  intro p w
  obtain ⟨hgathers, hlookup, -, -, -, -, hmoves⟩ := stageAll_gathers "anna" "mill" errands
  have hcommit : (p.commit {} true w).1 =
      .ok [.parameterChanged .temperature { game := "game", before := -30, after := -26 }] := rfl
  refine ⟨hgathers.storage, hgathers.resources .energy, hgathers.resources .plants, hlookup .temperature, ?_⟩
  exact hmoves p {} true w _ _ rfl (Prod.ext hcommit rfl) .temperature

end Plan

end MarsRules
