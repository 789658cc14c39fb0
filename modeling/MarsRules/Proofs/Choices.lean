import MarsRules.Proofs.Played

/-! One choice is made for the whole card, and every immediate behavior that offers choices goes by it. It
is held against the longest list of choices alone, so a behavior with a shorter one can be left without
any of its bundles (`Engine.checkPlay_resolves`, `Engine.play_unresolved`). -/

namespace MarsRules

/-- What a behavior comes to: with the bundle at the index, if it offers choices, or by itself. -/
inductive Behavior.Resolved (b : Behavior) (choice : Option Nat) : Choice → Prop
  | plain (none : b.choices = []) : Resolved b choice { inputs := b.inputs, outputs := b.outputs }
  | bundle (i : Nat) (made : choice = some i) (bundle : Choice) (offered : b.choices[i]? = some bundle) :
    Resolved b choice { inputs := b.inputs ++ bundle.inputs, outputs := b.outputs ++ bundle.outputs }

namespace Card

/-- The behavior takes part in the choice of a play. -/
structure Offers (c : Card) (b : Behavior) : Prop where
  immediate : b ∈ c.shaped .immediate
  choices : b.choices ≠ []

/-- What a play charges and gives is what the immediate behaviors come to, each resolved. -/
structure Resolves (c : Card) (choice : Option Nat) (part : Behavior → Choice) : Prop where
  parts : ∀ b ∈ c.shaped .immediate, b.Resolved choice (part b)
  spends : c.spends choice = (c.shaped .immediate).flatMap fun b => (part b).inputs
  gains : c.gains choice = (c.shaped .immediate).flatMap fun b => (part b).outputs

end Card

theorem Behavior.resolved_of_lt {b : Behavior} {choice : Option Nat}
    (h : b.choices ≠ [] → ∃ i, choice = some i ∧ i < b.choices.length) :
    b.Resolved choice { inputs := b.inputsWith choice, outputs := b.outputsWith choice } := by
  by_cases hnone : b.choices = []
  · have hchoice : b.choice? choice = none := by cases choice <;> simp [choice?, hnone]
    simp only [inputsWith, outputsWith, hchoice, Option.elim_none, List.append_nil]
    exact .plain hnone
  · obtain ⟨i, rfl, hi⟩ := h hnone
    have hoffered : b.choices[i]? = some b.choices[i] := List.getElem?_eq_getElem hi
    have hchoice : b.choice? (some i) = some b.choices[i] := hoffered
    simp only [inputsWith, outputsWith, hchoice, Option.elim_some]
    exact .bundle i rfl _ hoffered

theorem Behavior.Resolved.lt {b : Behavior} {choice : Option Nat} {part : Choice}
    (h : b.Resolved choice part) (hchoices : b.choices ≠ []) :
    ∃ i, choice = some i ∧ i < b.choices.length := by
  cases h with
  | plain none => exact absurd none hchoices
  | bundle i made bundle offered => exact ⟨i, made, (List.getElem?_eq_some_iff.mp offered).1⟩

theorem lt_foldl_max {i a : Nat} {ns : List Nat} : i < ns.foldl max a ↔ i < a ∨ ∃ n ∈ ns, i < n := by
  induction ns generalizing a with
  | nil => simp
  | cons n rest ih =>
    have hmax : i < max a n ↔ i < a ∨ i < n := by omega
    rw [List.foldl_cons, ih, hmax, or_assoc]
    simp

theorem checkChoice_eq_ok {available : Nat} {choice : Option Nat} :
    checkChoice available choice = .ok () ↔ available = 0 ∨ ∃ i, choice = some i ∧ i < available := by
  unfold checkChoice
  by_cases hnone : available = 0
  · simp [hnone]
  · cases choice <;> simp [hnone]

namespace Card

variable {c : Card} {choice : Option Nat}

theorem lt_choicesAtPlay {i : Nat} :
    i < c.choicesAtPlay ↔ ∃ b ∈ c.shaped .immediate, i < b.choices.length := by
  simp [choicesAtPlay, lt_foldl_max]

theorem exists_offers_of_checkChoice (h : checkChoice c.choicesAtPlay choice = .ok ()) {b : Behavior}
    (hb : c.Offers b) : ∃ i, choice = some i ∧ ∃ b', c.Offers b' ∧ i < b'.choices.length := by
  rcases checkChoice_eq_ok.mp h with hzero | ⟨i, rfl, hi⟩
  · have hsome : 0 < c.choicesAtPlay :=
      lt_choicesAtPlay.mpr ⟨b, hb.immediate, List.length_pos_iff.mpr hb.choices⟩
    omega
  · obtain ⟨b', hb', hlt⟩ := lt_choicesAtPlay.mp hi
    exact ⟨i, rfl, b', ⟨hb', List.length_pos_iff.mp (by omega)⟩, hlt⟩

theorem resolves_iff : (∃ part, c.Resolves choice part) ↔
    ∀ b, c.Offers b → ∃ i, choice = some i ∧ i < b.choices.length := by
  constructor
  · rintro ⟨part, hpart⟩ b hb
    exact (hpart.parts b hb.immediate).lt hb.choices
  · intro h
    exact ⟨fun b => { inputs := b.inputsWith choice, outputs := b.outputsWith choice },
      fun b hb => Behavior.resolved_of_lt fun hchoices => h b ⟨hb, hchoices⟩, rfl, rfl⟩

end Card

namespace Engine

variable {book : Rulebook} {p : PlayerId} {r : PlayRequest} {w w' : World} {player : Player} {card : Card}
  {paid : ResourceSet}

/-- A play that passes its checks makes a choice that one of the immediate behaviors offers. Each of them
is resolved with a bundle of its own exactly if all of them offer that choice, as they do where all offer
equally many; what the play commits is what they come to by then. -/
theorem checkPlay_resolves (h : checkPlay book p r w = (.ok (player, card, paid), w')) :
    (∀ b, card.Offers b → ∃ i, r.choice = some i ∧ ∃ b', card.Offers b' ∧ i < b'.choices.length) ∧
    ((∃ part, card.Resolves r.choice part) ↔
      ∀ b, card.Offers b → ∃ i, r.choice = some i ∧ i < b.choices.length) ∧
    ((∀ b b', card.Offers b → card.Offers b' → b.choices.length = b'.choices.length) →
      ∃ part, card.Resolves r.choice part) ∧
    ∀ events v, commitPlay book p r w = (.ok events, v) → ∃ game parameters after,
      w.records.game? w.game = some game ∧ w.player? p = some player ∧
      Played book.rules w game player card r parameters after v := by
  obtain ⟨_, hchecked⟩ := checkPlay_checked h
  have hoffered := fun b (hb : card.Offers b) =>
    Card.exists_offers_of_checkChoice (Card.checkPlay_ok hchecked).choice hb
  refine ⟨hoffered, Card.resolves_iff, fun heven => Card.resolves_iff.mpr fun b hb => ?_,
    fun events v hcommit => ?_⟩
  · obtain ⟨i, hi, b', hb', hlt⟩ := hoffered b hb
    exact ⟨i, hi, heven b' b hb' hb ▸ hlt⟩
  · obtain ⟨game, player', card', paid', parameters, after, _, h', hgame, hp, -, hplayed⟩ :=
      commitPlay_checked hcommit
    cases h.symm.trans h'
    exact ⟨game, parameters, after, hgame, hp, hplayed⟩

def stall : Behavior where
  triggers := [{ type := .auto }]
  choices := [{ outputs := [{ kind := .resource .credits, amount := 5 }] }]

def kitchen : Behavior where
  triggers := [{ type := .auto }]
  choices := [
    { outputs := [{ kind := .resource .plants, amount := 1 }] },
    { inputs := [{ kind := .resource .steel, amount := 1 }]
      outputs := [{ kind := .resource .heat, amount := 2 }] }]

def festival : Card where
  id := "festival"
  name := "Festival"
  type := .event
  behaviors := [stall, kitchen]

def fair : Rulebook where
  catalog := ⟨[festival]⟩
  rules := {}
  depth := 8

def visitor : Player :=
  { Player.named "player" with hand := ["festival"], resources := { steel := 1 } }

def visiting : World where
  store := { games := [("game", { id := "game" })], rosters := [("game", [visitor])] }
  session := { game := "game" }

/-- The first choice is one that both behaviors offer. -/
theorem checkPlay_resolves_festival :
    let r : PlayRequest := { card := "festival", choice := some 0 }
    (checkPlay fair "player" r visiting).1 = .ok (visitor, festival, { steel := 1 }) ∧
      (∃ part, festival.Resolves (some 0) part) ∧
      ∃ events v game parameters after, commitPlay fair "player" r visiting = (.ok events, v) ∧
        Played fair.rules visiting game visitor festival r parameters after v ∧
        after.resources = { credits := 5, steel := 1, plants := 1 } := by
  intro r
  have hchecked : (checkPlay fair "player" r visiting).1 = .ok (visitor, festival, { steel := 1 }) := rfl
  have hcommitted : (commitPlay fair "player" r visiting).1 =
      .ok [festival.event "game" "player"] := by rfl
  obtain ⟨-, hresolves, -, hplayed⟩ := checkPlay_resolves (Prod.fst_eq_iff.mp hchecked)
  have hcommit := Prod.fst_eq_iff.mp hcommitted
  obtain ⟨game, parameters, after, -, -, h⟩ := hplayed _ _ hcommit
  refine ⟨hchecked, hresolves.mpr fun b hb => ⟨0, rfl, List.length_pos_iff.mpr hb.choices⟩,
    _, _, game, parameters, after, hcommit, h, ?_⟩
  ext c
  rw [h.record.resources c (by cases c <;> decide)]
  cases c <;> decide

/-- The second is accepted too, though the first behavior does not offer it: that one gives nothing, where
with a bundle of its own, whichever it is, it would have given 5 credits. -/
theorem play_unresolved :
    let r : PlayRequest := { card := "festival", choice := some 1 }
    let played := play fair "player" r visiting
    let after := { visitor with hand := [], played := ["festival"], resources := { heat := 2 } }
    played.1 = .ok () ∧ played.2.player? "player" = some after ∧
      (¬∃ part, festival.Resolves (some 1) part) ∧
      ∀ pick : Behavior → Choice, (∀ b, festival.Offers b → pick b ∈ b.choices) →
        ∃ c, after.resources.get c ≠ visitor.resources.get c -
          amountOf (.resource c) ((festival.shaped .immediate).flatMap fun b => (pick b).inputs) +
          sumOf (.resource c) ((festival.shaped .immediate).flatMap fun b => (pick b).outputs) := by
  intro r played after
  have hstall : festival.Offers stall := ⟨by decide, by decide⟩
  have hkitchen : festival.Offers kitchen := ⟨by decide, by decide⟩
  refine ⟨by decide +kernel, by decide +kernel, fun h => ?_, fun pick hpick => ⟨.credits, ?_⟩⟩
  · obtain ⟨i, hi, hlt⟩ := Card.resolves_iff.mp h stall hstall
    cases hi
    exact absurd hlt (by decide)
  · have himmediate : festival.shaped .immediate = [stall, kitchen] := by decide
    have hfirst : pick stall = ⟨[], [{ kind := .resource .credits, amount := 5 }]⟩ :=
      List.mem_singleton.mp (hpick stall hstall)
    simp only [himmediate, List.flatMap_cons, List.flatMap_nil, hfirst]
    rcases List.mem_cons.mp (hpick kitchen hkitchen) with h | h
    · rw [h]
      decide
    · rw [List.mem_singleton.mp h]
      decide

end Engine

end MarsRules
