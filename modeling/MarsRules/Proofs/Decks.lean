import MarsRules.Proofs.Commits
import MarsRules.Proofs.Frames

/-! What a refused play or use leaves of the decks. Drawing is the last step but one: what can still
fail after it is the write of the offer that holds the cards, and then they are gone from the top of
the deck. -/

namespace MarsRules

open Steps (Keeps)

/-- Every deck has lost some cards off its top, or none, and is otherwise as it was. -/
def Store.Depletes (s t : Store) : Prop := ∀ g, ∃ n, t.decks.get? g = (s.decks.get? g).map (·.drop n)

namespace Store

variable {s t u : Store}

theorem Depletes.of_decks (h : t.decks = s.decks) : Depletes s t := fun g => ⟨0, by simp [h]⟩

theorem Depletes.trans (h : Depletes s t) (h' : Depletes t u) : Depletes s u := fun g => by
  obtain ⟨n, hn⟩ := h g
  obtain ⟨m, hm⟩ := h' g
  exact ⟨n + m, by rw [hm, hn, Option.map_map]; congr 1; funext deck; simp⟩

instance : Frame Depletes where
  trans := Depletes.trans
  alike h := .of_decks h.decks
  player _ _ _ _ := .of_decks rfl
  game _ _ := .of_decks rfl
  deck {s g deck} n hdeck g' := by
    by_cases hg : g' = g
    · subst hg
      exact ⟨n, by simp [setDeck, hdeck]⟩
    · exact ⟨0, by simp [setDeck, hg]⟩

end Store

namespace Engine

open Store.Frame (upkeep)

theorem commitPlay_depletes (book : Rulebook) (p : PlayerId) (r : PlayRequest) :
    Keeps (World.Over Store.Depletes) (commitPlay book p r) :=
  ((upkeep Store.Depletes).law book.rules).commitPlay p r

theorem commitUse_depletes (rules : Rules) (p : PlayerId) (card : CardId) (index : Nat)
    (choice : Option Nat) (target : Option CardId) :
    Keeps (World.Over Store.Depletes) (commitUse rules p card index choice target) :=
  ((upkeep Store.Depletes).law rules).commitUse p card index choice target

/-- A play or a use that is refused leaves every deck as it was, provided that the offer of the cards
that it draws can be written. In any case decks lose cards off their tops only. -/
theorem play_useAction_decks (book : Rulebook) (p : PlayerId) (w v : World) (e : Refusal)
    (restored : Bool) :
    (∀ r, play book p r w = (.error (.refused e restored), v) →
      (¬ w.store.MayFail (Write.drawOffer : Call) → v.store.decks = w.store.decks) ∧
        w.store.Depletes v.store) ∧
    (∀ card index choice target,
      useAction book p card index choice target w = (.error (.refused e restored), v) →
        (¬ w.store.MayFail (Write.drawOffer : Call) → v.store.decks = w.store.decks) ∧
          w.store.Depletes v.store) := by
  refine ⟨fun r h => ?_, fun card index choice target h => ?_⟩
  · have hcommit := refused_of_announce h
    exact ⟨(commitPlay_spares hcommit).decks, (commitPlay_depletes book p r).apply hcommit⟩
  · have hcommit := refused_of_announce h
    exact ⟨(commitUse_spares hcommit).decks, (commitUse_depletes _ _ _ _ _ _).apply hcommit⟩

def survey : Card where
  id := "survey"
  name := "Thermal Survey"
  type := .event
  behaviors := [.immediate [
    { kind := .cardDraw, amount := 2 },
    { kind := .globalParameter .temperature, amount := 1 }]]

def surveying (failing : Write) : World where
  store := {
    games := [("game", { id := "game" })]
    rosters := [("game", [{ Player.named "player" with hand := ["survey"] }])]
    decks := [("game", ["ants", "birds", "comet"])]
    outages := fun c => if c = .write failing then [{ times := 1 }] else [] }
  session := { game := "game" }

def surveyRules : Rulebook := { catalog := ⟨[survey]⟩, rules := {}, depth := 8 }

theorem play_decks_cold :
    let w := surveying (.parameter .temperature)
    let after := play surveyRules "player" { card := "survey" } w
    after.1 = .error (.refused Store.unavailable true) ∧ ¬ w.store.MayFail (Write.drawOffer : Call) ∧
      after.2.store.decks = w.store.decks := by
  intro w after
  have h : after.1 = .error (.refused Store.unavailable true) := rfl
  have hoffer : ¬ w.store.MayFail (Write.drawOffer : Call) := by
    rintro ⟨o, ho, -⟩
    exact absurd (show o ∈ [] from ho) List.not_mem_nil
  have hdecks := (play_useAction_decks surveyRules "player" w after.2 _ true).1 _ (Prod.ext h rfl)
  exact ⟨h, hoffer, hdecks.1 hoffer⟩

/-- Cards that are drawn and cannot be offered are lost, though all records are put back. -/
theorem play_loses_drawn :
    let w := surveying .drawOffer
    let after := play surveyRules "player" { card := "survey" } w
    after.1 = .error (.refused Store.unavailable true) ∧
      after.2.store.rosters = w.store.rosters ∧ after.2.store.games = w.store.games ∧
        w.store.deck "game" = ["ants", "birds", "comet"] ∧ after.2.store.deck "game" = ["comet"] :=
  ⟨rfl, rfl, rfl, rfl, rfl⟩

end Engine

end MarsRules
