import Mathlib
import MarsRules.Proofs.Dispatch
import MarsRules.Proofs.Endings
import MarsRules.Proofs.Readiness

/-! What a check says of the play it was made for. A play that passes is written and announced; what
it announces may be answered without end. A play that does not pass is refused in the same way. -/

namespace MarsRules

namespace Engine

variable {book : Rulebook} {p : PlayerId} {r : PlayRequest} {w v : World} {stop : Stop}

theorem canPlay_ok (h : canPlay book p r w = (.ok (), v)) :
    ∃ player card paid, checkPlay book p r w = (.ok (player, card, paid), v) := by
  obtain ⟨⟨player, card, paid⟩, u, hu, h⟩ := Steps.bind_eq_ok.mp h
  obtain ⟨-, rfl⟩ := Steps.pure_eq_ok.mp h
  exact ⟨player, card, paid, hu⟩

theorem canPlay_error (h : canPlay book p r w = (.error stop, v)) :
    checkPlay book p r w = (.error stop, v) := by
  rcases Steps.bind_eq_error.mp h with h | ⟨_, u, -, h⟩
  · exact h
  · simp at h

theorem commitPlay_of_canPlay (hr : book.rules.Ordered) (h : canPlay book p r w = (.ok (), v))
    {deck : List CardId} (hd : w.store.decks.get? w.game = some deck) :
    (∃ events u, commitPlay book p r w = (.ok events, u)) ∨
      ¬ w.store.Reliable ∧
        ∃ restored u, commitPlay book p r w = (.error (.refused Store.unavailable restored), u) := by
  obtain ⟨player, card, paid, hcheck⟩ := canPlay_ok h
  obtain ⟨ha, hgame, hp, -, -⟩ := checkPlay_ok hcheck
  have hw : w.Ready w.store.Reliable True p := ⟨hgame, ⟨player, hp⟩, fun _ => ⟨deck, hd⟩, id⟩
  have hs := commitPlay_sound hr trivial hcheck hw
  rcases hc : commitPlay book p r w with ⟨stop | events, u⟩
  · have hstop := hs.stop stop u hc
    cases stop with
    | refused e restored =>
      obtain ⟨hreliable, rfl⟩ := hstop
      exact .inr ⟨hreliable, restored, u, rfl⟩
    | brokenRange | tooDeep => exact hstop.elim
  · exact .inl ⟨events, u, rfl⟩

/-- If a play may be made and the game has a deck, the play is written and announced, unless a call is
unavailable or the announcement is answered without end. If it may not, it is refused for the same
reason, and nothing is written. -/
theorem play_of_canPlay (hr : book.rules.Ordered) :
    (∀ v deck, canPlay book p r w = (.ok (), v) → w.store.decks.get? w.game = some deck →
      (∃ depth u, ∀ deeper ≥ depth, play { book with depth := deeper } p r w = (.ok (), u)) ∨
      ((∃ events u, commitPlay book p r w = (.ok events, u)) ∧
        ∀ depth, (play { book with depth } p r w).1 = .error .tooDeep) ∨
      (¬ w.store.Reliable ∧ ∃ restored u, ∀ depth,
        play { book with depth } p r w = (.error (.refused Store.unavailable restored), u))) ∧
    ∀ v stop, canPlay book p r w = (.error stop, v) →
      play book p r w = (.error stop, v) ∧ World.Alike w v := by
  refine ⟨fun v deck h hd => ?_, fun v stop h => ?_⟩
  · rcases commitPlay_of_canPlay hr h hd with ⟨events, u, hu⟩ | ⟨hreliable, restored, u, hu⟩
    · have hplay (depth : Nat) : play { book with depth } p r w = announce { book with depth } events u :=
        Steps.bind_apply_ok hu
      rcases announce_ends_or hr events u with ⟨depth, x, hx⟩ | hdeep
      · exact .inl ⟨depth, x, fun deeper hd => (hplay deeper).trans (hx deeper hd)⟩
      · exact .inr (.inl ⟨⟨events, u, hu⟩, fun depth => by rw [hplay, hdeep]⟩)
    · exact .inr (.inr ⟨hreliable, restored, u, fun depth => Steps.bind_apply_error hu⟩)
  · have hcheck := canPlay_error h
    have hcommit : commitPlay book p r w = (.error stop, v) := Steps.bind_apply_error hcheck
    exact ⟨Steps.bind_apply_error hcommit, (checkPlay_alike book p r).apply hcheck⟩

theorem harvest_passes : (canPlay printed "player" harvesting holding).1 = .ok () ∧
    ∃ depth u, ∀ deeper ≥ depth,
      play { printed with depth := deeper } "player" harvesting holding = (.ok (), u) := by
  have hr : printed.rules.Ordered := fun q => by cases q <;> decide
  have hreliable : holding.store.Reliable := fun _ o ho => by cases ho
  have h : (canPlay printed "player" harvesting holding).1 = .ok () := by decide +kernel
  refine ⟨h, ?_⟩
  rcases (play_of_canPlay hr).1 _ ["next"] (Prod.fst_eq_iff.mp h) rfl with hends | ⟨-, hdeep⟩ | ⟨hno, -⟩
  · exact hends
  · exact absurd (hdeep 8) (by decide +kernel)
  · exact absurd hreliable hno

/-- A card that raises the temperature and brings the effects that answer it. -/
def swing : Card where
  id := "swing"
  name := "Swing"
  type := .active
  behaviors := [
    .immediate [{ kind := .globalParameter .temperature, amount := 1 }],
    (Seesaw.trade .temperatureRaise .temperature .oxygen).behavior,
    (Seesaw.trade .oxygenRaise .oxygen .temperature).behavior]

def swings : Rulebook := { Seesaw.book with catalog := ⟨[swing]⟩ }

def beforeSwing : World where
  store := {
    games := [("game", { id := "game" })]
    rosters := [("game", [{ Player.named "player" with hand := ["swing"] }])]
    decks := [("game", [])] }
  session := { game := "game" }

def swung (temperature oxygen : Int) : World where
  store := {
    games := [("game", { id := "game", parameters := { temperature, oxygen } })]
    rosters := [("game",
      [{ Player.named "player" with played := ["swing"], effects := swing.effects }])]
    decks := [("game", [])] }
  session := swing.effects.foldl (fun s e => (s.subscribe "player" e).2) { game := "game" }

theorem swung_rocks : Seesaw.Rocking swings (swung (-28) 0) (swung (-30) 1) where
  warmer := ⟨_, _, rfl, rfl, rfl⟩
  fresher := ⟨_, _, rfl, rfl, rfl⟩
  colder _ := rfl
  stuffier _ := rfl

theorem commitPlay_swing : commitPlay swings "player" { card := "swing" } beforeSwing =
    (.ok [Seesaw.change .temperature (-30) (-28), swing.event "game" "player"], swung (-28) 0) := by cbv

/-- A play that may be made need not end. -/
theorem canPlay_play_endless :
    let r : PlayRequest := { card := "swing" }
    swings.rules.Ordered ∧ (canPlay swings "player" r beforeSwing).1 = .ok () ∧
      beforeSwing.store.decks.get? beforeSwing.game = some [] ∧ beforeSwing.store.Reliable ∧
      ¬ ∃ depth, (play { swings with depth } "player" r beforeSwing).1 = .ok () := by
  intro r
  have hordered : swings.rules.Ordered := Seesaw.valid.ordered
  have hcan : (canPlay swings "player" r beforeSwing).1 = .ok () := by decide +kernel
  have hreliable : beforeSwing.store.Reliable := fun _ o ho => by cases ho
  refine ⟨hordered, hcan, rfl, hreliable, fun ⟨depth, h⟩ => ?_⟩
  have hplay : play { swings with depth } "player" r beforeSwing =
      announce { swings with depth } _ (swung (-28) 0) := Steps.bind_apply_ok commitPlay_swing
  obtain ⟨v, hv⟩ := (swung_rocks.tooDeep depth).1
  rw [hplay, announce_depth] at h
  rw [show (List.forM _ _ : Engine Unit) _ = _ from Steps.bind_apply_error (Steps.bind_apply_error hv)] at h
  cases h

end Engine

end MarsRules
