import MarsRules.Proofs.Interleaving

/-! Ranges of parameters. Where each has its ends the right way round, whatever is asked of a session
comes to an answer, unless events nest too deeply; where one has not, some request breaks off at it
(`Rules.ordered_iff`). What reads a ruleset does not look at that. -/

namespace MarsRules

open Steps (StopsOnly)

def Stop.Unbroken (stop : Stop) : Prop := stop ≠ .brokenRange

theorem ParameterChange.of?_isSome_iff {rules : Rules} {q : GlobalParameter} {current n : Int} :
    (of? rules q current n).isSome ↔ (rules.range q).min ≤ (rules.range q).max := by
  simp only [of?, ParameterRange.clamp?, Option.isSome_map]
  split <;> simp_all

open Engine in
/-- Where every range has its ends the right way round, all that keeps a session from an answer, refusals
apart, is that events nest too deeply. -/
def Stop.sessionLaw {S : Stop → Prop} (hS : ∀ stop, stop.IsRefusal → S stop) (hdeep : S .tooDeep)
    {rules : Rules} (hr : rules.Ordered) : SessionLaw rules where
  toPlanLaw := planLaw hS hr
  listeners _ _ h := session_stopsOnly.bind fun _ => h _
  isLive := isLive_stopsOnly
  outcome h := outcome_stops h fun _ h _ => h
  tooDeep := StopsOnly.stop hdeep
  orElse hx hb := orElse_stops hx hb hS
  readRoster _ := (onStore_stops _).mono hS
  subscribeCard _ _ _ := session_stopsOnly.bind fun _ => (StopsOnly.change _).bind fun _ => StopsOnly.pure _
  unsubscribe _ := StopsOnly.change _

theorem Ask.reply_unbroken {book : Rulebook} (hr : book.rules.Ordered) (a : Ask) :
    StopsOnly Stop.Unbroken (a.reply book) := by
  have hS (stop : Stop) (h : stop.IsRefusal) : stop.Unbroken := by
    rintro rfl
    exact h
  let L := Stop.sessionLaw hS (by simp [Stop.Unbroken]) hr
  exact L.reply (fun p c _ => L.place p fun _ _ _ => (Engine.onStore_stops _).mono hS)
    fun _ => StopsOnly.change _

/-- A corporation that starts with a step of a parameter. -/
def founder (q : GlobalParameter) : Card where
  id := "founder"
  name := "Founder"
  type := .corporation
  behaviors := [.corporationStart [{ kind := .globalParameter q, amount := 1 }]]

def founding : World where
  store := { games := [("game", { id := "game" })], rosters := [("game", [.named "player"])] }
  session := Session.new "game" false

def foundingAsked : Ask := .request (.call (.act "player" (.selectCorporation "founder")))

theorem Noted.applySteps_broken {rules : Rules} {q : GlobalParameter} {s t : World × List Change}
    {game : Game} (h : ¬ (rules.range q).min ≤ (rules.range q).max) (p : PlayerId)
    (hread : ofEngine Engine.readGame s = (.ok game, t)) :
    applySteps rules p [(q, 1)] s = (.error .brokenRange, t) := by
  have hnone : ParameterChange.of? rules q (game.parameters.get q) 1 = none := by
    rw [← Option.not_isSome_iff_eq_none, ParameterChange.of?_isSome_iff]
    exact h
  have hmove : moveParameter rules game.parameters q 1 = Steps.stop .brokenRange := by
    rw [moveParameter, if_neg (by decide), hnone]
  refine (Steps.bind_apply_ok hread).trans (Steps.bind_apply_error ?_)
  exact Steps.bind_apply_error (by rw [hmove]; rfl)

theorem transact_broken {α : Type} {drop : Dropping Session} {steps : Noted α} {w : World}
    {t : World × List Change} (h : steps (w, []) = (.error .brokenRange, t)) :
    transact drop steps w = (.error .brokenRange, t.1) := by
  unfold transact
  rw [h]

theorem Engine.orElse_broken {α : Type} {x : Engine α} {putBack : Engine Unit} {w v : World}
    (h : x w = (.error .brokenRange, v)) : x.orElse putBack w = (.error .brokenRange, v) := by
  unfold orElse
  rw [h]

theorem founding_broken {rules : Rules} {q : GlobalParameter}
    (h : ¬ (rules.range q).min ≤ (rules.range q).max) (depth : Nat) :
    (foundingAsked.reply ⟨⟨[founder q]⟩, rules, depth⟩ founding).1 = .error .brokenRange := by
  let chosen : World := (Engine.update "player" (.corporation (some "founder")) founding).2
  let plan : Plan := { player := "player", source := "founder", parameters := [(q, 1)] }
  have hwrite : plan.write rules true (chosen, []) = (.error .brokenRange, chosen, []) :=
    (Steps.bind_apply_ok rfl).trans <| (Steps.bind_apply_ok rfl).trans <|
      Steps.bind_apply_error (Noted.applySteps_broken h _ rfl)
  have hcommit : plan.commit rules true chosen = (.error .brokenRange, chosen) :=
    Steps.bind_apply_error (transact_broken hwrite)
  have hcard : Engine.commitCard rules "player" (founder q) none none chosen =
      (.error .brokenRange, chosen) :=
    (Steps.bind_apply_ok rfl).trans <| (Steps.bind_apply_ok rfl).trans hcommit
  have hselect : Engine.selectCorporation ⟨⟨[founder q]⟩, rules, depth⟩ "player" "founder" founding =
      (.error .brokenRange, chosen) :=
    (Steps.bind_apply_ok rfl).trans <| (Steps.bind_apply_ok rfl).trans <|
      (Steps.bind_apply_ok rfl).trans <| (Steps.bind_apply_ok rfl).trans <|
      (Steps.bind_apply_ok rfl).trans <| Steps.bind_apply_error (Engine.orElse_broken hcard)
  exact congrArg Prod.fst (Steps.bind_apply_error hselect)

/-- No request breaks off at a range just if none has its ends the wrong way round, whatever the cards,
the records and the outages are. -/
theorem Rules.ordered_iff (rules : Rules) :
    rules.Ordered ↔ ∀ catalog depth (a : Ask) w,
      (a.reply { catalog, rules, depth } w).1 ≠ .error .brokenRange := by
  constructor
  · intro hr catalog depth a w h
    have hbook : (Rulebook.mk catalog rules depth).rules.Ordered := hr
    exact a.reply_unbroken hbook w .brokenRange _ (Prod.fst_eq_iff.mp h) rfl
  · intro h q
    exact Decidable.byContradiction fun hq => h _ 0 foundingAsked founding (founding_broken hq 0)

/-- Rules by which oxygen would have to be at least 5 and at most 1 are read all the same, and the choice
of a corporation that starts with oxygen breaks off: it is recorded and stays, without its effects. -/
theorem Rules.ofText_upside_down :
    let text := "\x7b\"oxygen\": \x7b\"min\": 5, \"max\": 1, \"step\": 1\x7d\x7d"
    let rules : Rules := { oxygen := { min := 5, max := 1, step := 1 } }
    let after := foundingAsked.reply { catalog := ⟨[founder .oxygen]⟩, rules, depth := 8 } founding
    Rules.ofText text = .ok rules ∧ after.1 = .error .brokenRange ∧
      (after.2.player? "player").map (·.corporation) = some (some "founder") := by
  intro text rules after
  refine ⟨?_, by decide +kernel, by decide +kernel⟩
  have hread : (Json.parse? text >>= Rules.ofJson?) = some rules := by decide +kernel
  rw [Rules.ofText, hread]

end MarsRules
