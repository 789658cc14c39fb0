import MarsRules.Proofs.Reactions

/-! Moving the global parameters. Every change is computed from where the parameters stood before
the first move, and a parameter is named once in the steps of a plan, so each moves once. -/

namespace MarsRules

open Steps (Keeps)

/-- The same session and decks, and these records. -/
structure World.Becomes (w : World) (r : Records) (v : World) : Prop where
  session : v.session = w.session
  decks : v.store.decks = w.store.decks
  records : v.records = r

namespace World.Becomes

variable {w v u : World} {r r' : Records}

theorem game (h : Becomes w r v) : v.game = w.game := congrArg Session.game h.session

theorem trans (h : Becomes w r v) (h' : Becomes v r' u) : Becomes w r' u :=
  ⟨h'.session.trans h.session, h'.decks.trans h.decks, h'.records⟩

theorem of_alike (h : Alike w v) : Becomes w w.records v :=
  ⟨h.session, h.store.decks, h.store.records⟩

end World.Becomes

namespace Parameters

/-- The parameters after these changes, in turn. -/
def after (v : Parameters) (changes : List ParameterChange) : Parameters :=
  changes.foldl (fun v c => v.set c.parameter c.after) v

@[simp] theorem after_nil (v : Parameters) : v.after [] = v := rfl

@[simp] theorem after_cons (v : Parameters) (c : ParameterChange) (cs : List ParameterChange) :
    v.after (c :: cs) = (v.set c.parameter c.after).after cs := rfl

theorem after_append (v : Parameters) (cs ds : List ParameterChange) :
    v.after (cs ++ ds) = (v.after cs).after ds := List.foldl_append ..

theorem get_after_of_forall_ne {cs : List ParameterChange} {q : GlobalParameter}
    (h : ∀ c ∈ cs, c.parameter ≠ q) (v : Parameters) : (v.after cs).get q = v.get q := by
  induction cs generalizing v with
  | nil => rfl
  | cons c rest ih =>
    obtain ⟨hc, hr⟩ := List.forall_mem_cons.mp h
    rw [after_cons, ih hr, get_set, if_neg hc]

theorem get_after_of_mem {cs : List ParameterChange} {c : ParameterChange}
    (hn : (cs.map (·.parameter)).Nodup) (hc : c ∈ cs) (v : Parameters) :
    (v.after cs).get c.parameter = c.after := by
  induction cs generalizing v with
  | nil => cases hc
  | cons d rest ih =>
    obtain ⟨hd, hr⟩ := List.nodup_cons.mp hn
    rw [after_cons]
    rcases List.mem_cons.mp hc with rfl | hc
    · rw [get_after_of_forall_ne fun e he hp => hd (List.mem_map.mpr ⟨e, he, hp⟩), get_set, if_pos rfl]
    · exact ih hr hc _

end Parameters

namespace ParameterChange

/-- The change that one step makes from where the parameters stood at first, if it makes any. -/
def ofStep? (rules : Rules) (first : Parameters) (step : GlobalParameter × Int) :
    Option ParameterChange :=
  if step.2 = 0 then none
  else (of? rules step.1 (first.get step.1) step.2).filter (·.isChange)

def ofSteps (rules : Rules) (first : Parameters) (steps : List (GlobalParameter × Int)) :
    List ParameterChange := steps.filterMap (ofStep? rules first)

variable {rules : Rules} {first : Parameters} {steps : List (GlobalParameter × Int)}
  {q : GlobalParameter} {n : Int} {c : ParameterChange}

theorem ofStep?_eq_some : ofStep? rules first (q, n) = some c ↔
    n ≠ 0 ∧ of? rules q (first.get q) n = some c ∧ c.isChange := by
  unfold ofStep?
  split
  · next h => simp [show n = 0 from h]
  · next h => simp [Option.filter_eq_some_iff, show n ≠ 0 from h]

theorem mem_ofSteps : c ∈ ofSteps rules first steps ↔ ∃ n ≠ 0, (c.parameter, n) ∈ steps ∧
    of? rules c.parameter (first.get c.parameter) n = some c ∧ c.isChange := by
  simp only [ofSteps, List.mem_filterMap, Prod.exists, ofStep?_eq_some]
  constructor
  · rintro ⟨q, n, hm, hn, ho, hc⟩
    obtain ⟨rfl, -⟩ := of?_eq_some ho
    exact ⟨n, hn, hm, ho, hc⟩
  · rintro ⟨n, hn, hm, ho, hc⟩
    exact ⟨c.parameter, n, hm, hn, ho, hc⟩

theorem before_of_mem_ofSteps (h : c ∈ ofSteps rules first steps) :
    c.before = first.get c.parameter := by
  obtain ⟨n, -, -, ho, -⟩ := mem_ofSteps.mp h
  exact (of?_eq_some ho).2

theorem ofSteps_nodup (h : (steps.map (·.1)).Nodup) :
    ((ofSteps rules first steps).map (·.parameter)).Nodup := by
  induction steps with
  | nil => exact List.nodup_nil
  | cons step rest ih =>
    obtain ⟨hs, hr⟩ := List.nodup_cons.mp h
    cases hc : ofStep? rules first step with
    | none => simpa [ofSteps, hc] using ih hr
    | some c =>
      obtain ⟨-, ho, -⟩ := ofStep?_eq_some.mp hc
      have hp : c.parameter = step.1 := (of?_eq_some ho).1
      simp only [ofSteps, List.filterMap_cons, hc, List.map_cons, List.nodup_cons]
      refine ⟨fun hm => ?_, ih hr⟩
      obtain ⟨d, hd, hdp⟩ := List.mem_map.mp hm
      obtain ⟨m, -, hm, -⟩ := mem_ofSteps.mp hd
      exact hs (List.mem_map.mpr ⟨_, hm, hdp.trans hp⟩)

theorem ofSteps_eq_nil (h : ∀ step ∈ steps, step.2 = 0) : ofSteps rules first steps = [] :=
  List.filterMap_eq_nil_iff.mpr fun step hs => by simp [ofStep?, h step hs]

theorem stepsGained_nonneg : 0 ≤ c.stepsGained rules := Int.le_max_left ..

/-- The rating that the changes are worth. A sum that wraps around to a loss is worth nothing. -/
def rating (rules : Rules) (cs : List ParameterChange) : Int :=
  if rules.ratingPerStep then max 0 (wrapInt32 (total (cs.map (·.stepsGained rules)))) else 0

@[simp] theorem rating_nil (rules : Rules) : rating rules [] = 0 := by simp [rating, total]

theorem rating_of_not {cs : List ParameterChange}
    (h : (rules.ratingPerStep && decide (0 < wrapInt32 (total (cs.map (·.stepsGained rules))))) =
      false) : rating rules cs = 0 := by
  unfold rating
  split
  · next hr =>
    simp only [hr, Bool.true_and, decide_eq_false_iff_not] at h
    omega
  · rfl

end ParameterChange

/-- Every parameter that the steps move has a range whose ends are in order. -/
def Rules.Admits (rules : Rules) (steps : List (GlobalParameter × Int)) : Prop :=
  ∀ step ∈ steps, step.2 ≠ 0 → (rules.range step.1).min ≤ (rules.range step.1).max

/-- The records with the parameters of a game moved on. -/
def Records.moveOn (r : Records) (g : GameId) (cs : List ParameterChange) : Records :=
  r.changeGame g fun game => { game with parameters := game.parameters.after cs }

theorem Records.moveOn_nil (r : Records) (g : GameId) : r.moveOn g [] = r :=
  changeGame_of_game? fun _ _ => rfl

theorem Records.moveOn_append (r : Records) (g : GameId) (cs ds : List ParameterChange) :
    (r.moveOn g cs).moveOn g ds = r.moveOn g (cs ++ ds) := by
  simp only [moveOn, changeGame_changeGame, Parameters.after_append]
  rfl

namespace Noted

variable {rules : Rules} {first : Parameters} {p : PlayerId} {w : World} {noted : List Change}
  {t : World × List Change}

theorem overwrite_ok {player : Player} {f : PlayerField}
    (h : overwrite player f (w, noted) = (.ok (), t)) :
    w.Becomes ((Entry.player player.id f).put w.game w.records) t.1 := by
  obtain ⟨_, u, hu, h⟩ := Steps.bind_eq_ok.mp h
  cases hu
  obtain ⟨v, hv, rfl⟩ := ofEngine_eq_ok.mp h
  obtain ⟨-, hs, hr, hd⟩ := Engine.update_ok hv
  exact ⟨hs, hd, hr⟩

theorem moveParameter_ok {q : GlobalParameter} {n : Int} {moved : Option ParameterChange}
    (h : moveParameter rules first q n (w, noted) = (.ok moved, t)) :
    moved = ParameterChange.ofStep? rules first (q, n) ∧
      w.Becomes (w.records.moveOn w.game moved.toList) t.1 := by
  have hw : w.Becomes (w.records.moveOn w.game []) w := ⟨rfl, rfl, (Records.moveOn_nil _ _).symm⟩
  unfold moveParameter at h
  split at h
  · next hn =>
    obtain ⟨rfl, rfl⟩ := Steps.pure_eq_ok.mp h
    exact ⟨by simp [ParameterChange.ofStep?, hn], hw⟩
  · next hn =>
    cases hc : ParameterChange.of? rules q (first.get q) n with
    | none => simp [hc] at h
    | some c =>
      simp only [hc] at h
      split at h
      · next hch =>
        obtain ⟨_, u, hu, h⟩ := Steps.bind_eq_ok.mp h
        cases hu
        obtain ⟨_, u, hu, h⟩ := Steps.bind_eq_ok.mp h
        obtain ⟨v, hv, rfl⟩ := ofEngine_eq_ok.mp hu
        obtain ⟨rfl, rfl⟩ := Steps.pure_eq_ok.mp h
        obtain ⟨hs, hr, hd⟩ := Engine.updateGame_ok hv
        refine ⟨(ParameterChange.ofStep?_eq_some.mpr ⟨hn, hc, hch⟩).symm, hs, hd, ?_⟩
        rw [hr, ← (ParameterChange.of?_eq_some hc).1]
        rfl
      · next hch =>
        obtain ⟨rfl, rfl⟩ := Steps.pure_eq_ok.mp h
        refine ⟨?_, hw⟩
        simp [ParameterChange.ofStep?, hn, hc, Option.filter, hch]

theorem moveParameters_ok {steps : List (GlobalParameter × Int)} {changes : List ParameterChange}
    (h : moveParameters rules first steps (w, noted) = (.ok changes, t)) :
    changes = ParameterChange.ofSteps rules first steps ∧
      w.Becomes (w.records.moveOn w.game changes) t.1 := by
  induction steps generalizing w noted changes with
  | nil =>
    obtain ⟨rfl, rfl⟩ := Steps.pure_eq_ok.mp h
    exact ⟨rfl, rfl, rfl, (Records.moveOn_nil _ _).symm⟩
  | cons step rest ih =>
    obtain ⟨moved, ⟨v, noted₁⟩, hm, h⟩ := Steps.bind_eq_ok.mp h
    obtain ⟨others, u, ho, h⟩ := Steps.bind_eq_ok.mp h
    obtain ⟨rfl, rfl⟩ := Steps.pure_eq_ok.mp h
    obtain ⟨rfl, hv⟩ := moveParameter_ok hm
    obtain ⟨rfl, hu⟩ := ih ho
    refine ⟨?_, hu.session.trans hv.session, hu.decks.trans hv.decks, ?_⟩
    · show (ParameterChange.ofStep? rules first step).toList ++ _ = _
      unfold ParameterChange.ofSteps
      cases h : ParameterChange.ofStep? rules first step <;> simp [h]
    · rw [hu.records, hv.records, hv.game, Records.moveOn_append]

/-- Moving a parameter takes a range to stay in. -/
theorem moveParameters_admits {steps : List (GlobalParameter × Int)} {changes : List ParameterChange}
    (h : moveParameters rules first steps (w, noted) = (.ok changes, t)) : rules.Admits steps := by
  induction steps generalizing w noted changes t with
  | nil => exact fun _ h => by cases h
  | cons step rest ih =>
    obtain ⟨moved, ⟨v, noted₁⟩, hm, h⟩ := Steps.bind_eq_ok.mp h
    obtain ⟨others, u, ho, -⟩ := Steps.bind_eq_ok.mp h
    refine List.forall_mem_cons.mpr ⟨fun hn => Decidable.byContradiction fun hr => ?_, ih ho⟩
    have : ParameterChange.of? rules step.1 (first.get step.1) step.2 = none := by
      simp [ParameterChange.of?, ParameterRange.clamp?, hr]
    simp [moveParameter, hn, this] at hm

theorem applySteps_admits {steps : List (GlobalParameter × Int)} {changes : List ParameterChange}
    (h : applySteps rules p steps (w, noted) = (.ok changes, t)) : rules.Admits steps := by
  unfold applySteps at h
  split at h
  · next hall =>
    intro step hs hn
    exact absurd (by simpa using List.all_eq_true.mp hall step hs) hn
  · obtain ⟨game, u, hu, h⟩ := Steps.bind_eq_ok.mp h
    obtain ⟨v, -, rfl⟩ := ofEngine_eq_ok.mp hu
    obtain ⟨moved, u, hm, -⟩ := Steps.bind_eq_ok.mp h
    exact moveParameters_admits hm

theorem parameters_moveOn {game : Game} {cs : List ParameterChange} {f : Player → Player} {v : World}
    (hg : w.records.game? w.game = some game)
    (hv : w.Becomes ((w.records.moveOn w.game cs).changePlayer w.game p f) v) :
    v.parameters = game.parameters.after cs := by
  have : v.records.game? v.game = some { game with parameters := game.parameters.after cs } := by
    rw [hv.records, hv.game, Records.game?_changePlayer, Records.moveOn, Records.game?_changeGame, hg]
    rfl
  simp [World.parameters, this]

theorem changePlayer_rating_zero (r : Records) (g : GameId) (p : PlayerId) :
    r.changePlayer g p (fun x => { x with rating := addInt32 x.rating 0 }) = r := by
  simp only [addInt32_zero]
  exact Records.changePlayer_id

/-- What is gained is written over the rating that the player was read with, so it is added. -/
theorem overwrite_rating_ok {gained : Int}
    (h : (do let player ← Engine.readPlayer p
             overwrite player (.rating (addInt32 player.rating gained)) : Noted Unit) (w, noted) =
      (.ok (), t)) :
    w.Becomes (w.records.changePlayer w.game p fun x =>
      { x with rating := addInt32 x.rating gained }) t.1 := by
  obtain ⟨player, u, hu, h⟩ := Steps.bind_eq_ok.mp h
  obtain ⟨v, hv, rfl⟩ := ofEngine_eq_ok.mp hu
  obtain ⟨hp, ha⟩ := Engine.readPlayer_ok hv
  have hv := World.Becomes.of_alike ha
  have ht := hv.trans (overwrite_ok h)
  refine ⟨ht.session, ht.decks, ht.records.trans ?_⟩
  rw [hv.game, hv.records, World.player?_id hp]
  refine Records.changePlayer_congr fun x hx => ?_
  obtain rfl : player = x := Option.some.inj (hp.symm.trans hx)
  rfl

/-- The changes give the rating they are worth, by leaving it alone where that is nothing. -/
theorem ratingStep_ok {changes : List ParameterChange}
    {gained : Int} (hg : gained = wrapInt32 (total (changes.map (·.stepsGained rules))))
    (h : Steps.when (rules.ratingPerStep && 0 < gained)
        (do let player ← Engine.readPlayer p
            overwrite player (.rating (addInt32 player.rating gained)) : Noted Unit) (w, noted) =
      (.ok (), t)) :
    w.Becomes (w.records.changePlayer w.game p fun x =>
      { x with rating := addInt32 x.rating (ParameterChange.rating rules changes) }) t.1 := by
  subst hg
  rcases Steps.when_eq_ok.mp h with ⟨hgain, h⟩ | ⟨hgain, h⟩
  · obtain ⟨hrate, hpos⟩ : rules.ratingPerStep = true ∧ _ := by simpa using hgain
    rw [ParameterChange.rating, if_pos hrate, Int.max_eq_right (Int.le_of_lt hpos)]
    exact overwrite_rating_ok h
  · cases h
    rw [ParameterChange.rating_of_not hgain, changePlayer_rating_zero]
    exact ⟨rfl, rfl, rfl⟩

/-- The records after the steps of a plan: the parameters moved, and the rating that is worth. -/
theorem applySteps_ok {steps : List (GlobalParameter × Int)} {changes : List ParameterChange}
    (h : applySteps rules p steps (w, noted) = (.ok changes, t)) :
    changes = ParameterChange.ofSteps rules w.parameters steps ∧
      t.1.parameters = w.parameters.after changes ∧
      w.Becomes ((w.records.moveOn w.game changes).changePlayer w.game p fun x =>
        { x with rating := addInt32 x.rating (ParameterChange.rating rules changes) }) t.1 := by
  unfold applySteps at h
  split at h
  · next hall =>
    obtain ⟨rfl, rfl⟩ := Steps.pure_eq_ok.mp h
    have hzero : ∀ step ∈ steps, step.2 = 0 := by simpa using hall
    refine ⟨(ParameterChange.ofSteps_eq_nil hzero).symm, rfl, rfl, rfl, ?_⟩
    rw [ParameterChange.rating_nil, changePlayer_rating_zero, Records.moveOn_nil]
  · obtain ⟨game, u, hu, h⟩ := Steps.bind_eq_ok.mp h
    obtain ⟨v, hv, rfl⟩ := ofEngine_eq_ok.mp hu
    obtain ⟨hg, ha⟩ := Engine.readGame_ok hv
    have hv := World.Becomes.of_alike ha
    obtain ⟨moved, ⟨u, noted₁⟩, hm, h⟩ := Steps.bind_eq_ok.mp h
    obtain ⟨_, ⟨x, noted₂⟩, hx, h⟩ := Steps.bind_eq_ok.mp h
    obtain ⟨rfl, rfl⟩ := Steps.pure_eq_ok.mp h
    obtain ⟨hch, hu⟩ := moveParameters_ok hm
    have hw : w.parameters = game.parameters := by simp [World.parameters, hg]
    have hu := hv.trans hu
    rw [hv.records, hv.game] at hu
    have hx := hu.trans (ratingStep_ok rfl hx)
    rw [hu.records, hu.game] at hx
    exact ⟨by rw [hch, hw], by rw [hw]; exact parameters_moveOn hg hx, hx⟩

section Keeps

variable {R : World × List Change → World × List Change → Prop} [Std.Refl R] [Trans R R R]

theorem moveParameters_keeps (rules : Rules) (first : Parameters) (steps : List (GlobalParameter × Int))
    (hnote : ∀ q v, Keeps R (note (.parameter q v)))
    (hupdate : ∀ q v, Keeps R (ofEngine (Engine.updateGame (.parameter q v)))) :
    Keeps R (moveParameters rules first steps) := by
  have hmove (q : GlobalParameter) (n : Int) : Keeps R (moveParameter rules first q n) := by
    unfold moveParameter
    split
    · exact Keeps.pure _
    · split
      · exact Keeps.stop _
      · split
        · exact (hnote _ _).bind fun _ => (hupdate _ _).bind fun _ => Keeps.pure _
        · exact Keeps.pure _
  induction steps with
  | nil => exact Keeps.pure _
  | cons step rest ih => exact (hmove _ _).bind fun _ => ih.bind fun _ => Keeps.pure _

/-- The steps of a plan keep what looking, moving a parameter and writing a rating keep. -/
theorem applySteps_keeps (rules : Rules) (p : PlayerId) (steps : List (GlobalParameter × Int))
    (halike : ∀ {α : Type} {x : Engine α}, Keeps World.Alike x → Keeps R (ofEngine x))
    (hnote : ∀ q v, Keeps R (note (.parameter q v)))
    (hupdate : ∀ q v, Keeps R (ofEngine (Engine.updateGame (.parameter q v))))
    (hrating : ∀ player v, Keeps R (overwrite player (.rating v))) :
    Keeps R (applySteps rules p steps) := by
  unfold applySteps
  split
  · exact Keeps.pure _
  · refine (halike Engine.readGame_alike).bind fun game => ?_
    refine (moveParameters_keeps rules _ steps hnote hupdate).bind fun changes => ?_
    refine Keeps.bind (Keeps.when ?_ _) fun _ => Keeps.pure _
    exact (halike (Engine.readPlayer_alike p)).bind fun _ => hrating _ _

end Keeps

end Noted

end MarsRules
