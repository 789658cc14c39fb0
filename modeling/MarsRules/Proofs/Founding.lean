import MarsRules.Proofs.Dealing
import MarsRules.Proofs.Successive

/-! Choosing a corporation where calls can fail. The corporation is recorded, its start effects are
committed, and its first action is recorded last. What goes wrong before the effects are committed is put
back. The write that comes after them is not noted anywhere: when it fails, the choice is refused, while
corporation and effects stand and the first action is lost, since nobody chooses twice
(`Engine.selectCorporation_halts`). -/

namespace MarsRules

/-- How a refusal can leave the corporation with its player; the flag says whether all that was undone is
put back. -/
inductive World.Founded (book : Rulebook) (p : PlayerId) (id : CardId) (w : World) : Bool → World → Prop
  /-- Its effects are put back, but the call that takes the corporation off again fails. -/
  | named {card : Card} {x : Player} {t u v : World} {e : Refusal} (there : w.player? p = some x)
      (undecided : x.corporation = none)
      (chosen : Engine.chooseCorporation book.catalog p id w = (.ok card, t))
      (refused : Engine.commitCard book.rules p card none none t = (.error (.refused e true), u))
      (fails : u.store.serves (Write.corporation : Call) = false) (game : v.game = w.game)
      (records : v.records =
        w.records.changePlayer w.game p (PlayerField.corporation (some card.id)).put) :
      Founded book p id w false v
  /-- All is written and announced but the first action. -/
  | begun {card : Card} {f : ForcedAction} {events : List Event} {t u v : World} {d d' : Desk}
      {drawn : List CardId} (found : book.catalog.find? id = some card)
      (first : card.forcedAction? = some f)
      (committed : (Operation.selectCorporation id).commit book p w = (.ok events, t))
      (announced : Engine.announce book events t = (.ok (), u))
      (fails : u.store.serves (Write.forced : Call) = false) (same : Alike u v) (here : d.id = p)
      (undecided : d.corporation = none) (deals : w.Deals v d drawn d')
      (grows : Desk.Grows { d with corporation := some card.id } drawn d') :
      Founded book p id w true v

namespace World

theorem Restored.player? {w v : World} (h : Restored w v) (p : PlayerId) : v.player? p = w.player? p := by
  unfold World.player?
  rw [h.game, h.records]

theorem Founded.decided {book : Rulebook} {p : PlayerId} {id : CardId} {w v : World} {b : Bool}
    (h : Founded book p id w b v) :
    ¬ Restored w v ∧ ∃ y, v.player? p = some y ∧ y.corporation ≠ none := by
  have hmoved {x y : Player} (hx : w.player? p = some x) (hnone : x.corporation = none)
      (hy : v.player? p = some y) (hsome : y.corporation ≠ none) :
      ¬ Restored w v ∧ ∃ y, v.player? p = some y ∧ y.corporation ≠ none := by
    refine ⟨fun hr => ?_, y, hy, hsome⟩
    obtain rfl := Option.some.inj (hy.symm.trans ((hr.player? p).trans hx))
    exact hsome hnone
  cases h with
  | @named card x _ _ _ _ there undecided _ _ _ game records =>
    have hy : v.player? p = some { x with corporation := some card.id } := by
      unfold World.player?
      rw [records, game, Records.player?_changePlayer fun y hid => (PlayerField.id_put _ y).trans hid]
      exact congrArg (Option.map _) there
    exact hmoved there undecided hy (by simp)
  | begun _ _ _ _ _ _ here undecided deals grows =>
    subst here
    obtain ⟨x, hx, rfl⟩ := World.player?_of_desk? deals.there
    obtain ⟨y, hy, rfl⟩ := World.player?_of_desk? ((deals.desk? _).trans (if_pos rfl))
    exact hmoved hx undecided hy (by rw [show y.corporation = _ from grows.corporation]; simp)

end World

namespace Engine

open World (Alike Written Restored Founded)

variable {book : Rulebook} {p : PlayerId} {id : CardId} {w u v : World} {x : Player} {e : Refusal} {b : Bool}

theorem chooseCorporation_written {catalog : Catalog} {result : Except Stop Card}
    (h : chooseCorporation catalog p id w = (result, v)) :
    ((∃ stop, result = .error stop) ∧ Alike w v) ∨
    ∃ card x, result = .ok card ∧ w.player? p = some x ∧ x.corporation = none ∧
      Written p [.corporation (some card.id)] w v := by
  rcases chooseCorporation_writes h with ⟨hstop, ha, -⟩ | ⟨card, x, u, hok, -, hp, hnone, ha, -, hwrite⟩
  · exact .inl ⟨hstop, ha⟩
  · obtain ⟨-, hs, hr, hd⟩ := update_ok hwrite
    exact .inr ⟨card, x, hok, hp, hnone, .after ha ⟨hs, hd, hr⟩⟩

theorem selectCorporation_of_decided {result : Except Stop Unit} (hp : w.player? p = some x)
    (hx : x.corporation ≠ none) (h : selectCorporation book p id w = (result, v)) :
    (∃ stop, result = .error stop) ∧ Restored w v := by
  have hrun : selectCorporation book p id = (Operation.selectCorporation id).run book p := rfl
  rw [hrun, Operation.run_eq] at h
  rcases hchosen : chooseCorporation book.catalog p id w with ⟨chosen, t⟩
  rcases chooseCorporation_written hchosen with ⟨⟨stop, rfl⟩, ha⟩ | ⟨_, y, -, hy, hnone, -⟩
  · have hcommit : (Operation.selectCorporation id).commit book p w = (.error stop, t) :=
      Steps.bind_apply_error hchosen
    cases (Steps.bind_apply_error hcommit).symm.trans h
    exact ⟨⟨stop, rfl⟩, ha.restored⟩
  · exact absurd (Option.some.inj (hp.symm.trans hy) ▸ hnone) hx

theorem restored_of_cleared {card : Card} {t : World} (hp : w.player? p = some x)
    (hnone : x.corporation = none) (hwritten : Written p [.corporation (some card.id)] w t)
    (hback : Restored t u) (hcleared : update p (.corporation none) u = (.ok (), v)) : Restored w v := by
  obtain ⟨-, hs, hr, -⟩ := update_ok hcleared
  have hgame : u.game = w.game := hback.game.trans hwritten.game
  refine ⟨(congrArg Session.game hs).trans hgame, ?_⟩
  rw [hr, hgame, hback.records, hwritten.records]
  show (w.records.changePlayer w.game p _).changePlayer w.game p _ = _
  rw [Records.changePlayer_changePlayer fun y hid => (y.putAll_id _).trans hid]
  refine (Records.changePlayer_congr (h := id) fun y hy => ?_).trans Records.changePlayer_id
  obtain rfl := Option.some.inj (hp.symm.trans hy)
  rw [← hnone]
  rfl

theorem commit_choice_refused
    (h : (Operation.selectCorporation id).commit book p w = (.error (.refused e b), v)) :
    Restored w v ∨
    (b = false ∧ ∃ card t u e', chooseCorporation book.catalog p id w = (.ok card, t) ∧
      commitCard book.rules p card none none t = (.error (.refused e' false), u)) ∨
    Founded book p id w b v := by
  rcases Steps.bind_eq_error.mp h with h | ⟨card, t, hchosen, h⟩
  · rcases chooseCorporation_written h with ⟨-, ha⟩ | ⟨_, _, hok, _⟩
    · exact .inl ha.restored
    · cases hok
  obtain ⟨card', x, hok, hp, hnone, hwritten⟩ :=
    (chooseCorporation_written hchosen).resolve_left (by rintro ⟨⟨_, he⟩, _⟩; cases he)
  obtain rfl := Except.ok.inj hok
  obtain ⟨e', b', u, hcard, hback⟩ := orElse_refused h
  cases b' with
  | false =>
    have hb : b = false := by rcases hback with ⟨-, hb⟩ | ⟨-, hb⟩ <;> exact hb
    exact .inr (.inl ⟨hb, card, t, u, e', hchosen, hcard⟩)
  | true =>
    have hu := commitCard_reverts book.rules p card none none t e' u hcard
    rcases hback with ⟨hcleared, -⟩ | ⟨⟨stop, hstop⟩, rfl⟩
    · exact .inl (restored_of_cleared hp hnone hwritten hu hcleared)
    have ha := update_error hstop
    have hgame : u.game = w.game := hu.game.trans hwritten.game
    have hthere := (hu.player? p).trans (hwritten.player? hp)
    refine .inr (.inr (.named hp hnone hchosen hcard (not_serves_of_update hstop hthere) ?_ ?_))
    · exact (congrArg Session.game ha.session).trans hgame
    · exact ha.store.records.trans (hu.records.trans hwritten.records)

/-- A choice that is refused has left game and players as they were, unless the rewinding of its effects
failed, or the corporation stands: alone, as the call failed that takes it off, or with all that it does at
the start, as the write of its first action failed. Then no choice can be made again. -/
theorem selectCorporation_halts (h : selectCorporation book p id w = (.error (.refused e b), v)) :
    Restored w v ∨
    (b = false ∧ ∃ card t u e', chooseCorporation book.catalog p id w = (.ok card, t) ∧
      commitCard book.rules p card none none t = (.error (.refused e' false), u)) ∨
    Founded book p id w b v ∧ ¬ Restored w v ∧ ∀ outages id' result u,
      selectCorporation book p id' (v.withOutages outages) = (result, u) →
        (∃ stop, result = .error stop) ∧ Restored v u := by
  have hstands (hv : Founded book p id w b v) : ¬ Restored w v ∧ ∀ outages id' result u,
      selectCorporation book p id' (v.withOutages outages) = (result, u) →
        (∃ stop, result = .error stop) ∧ Restored v u := by
    obtain ⟨hmoved, y, hy, hsome⟩ := hv.decided
    refine ⟨hmoved, fun outages id' result u hu => ?_⟩
    obtain ⟨hstop, hg, hr⟩ := selectCorporation_of_decided (w := v.withOutages outages) hy hsome hu
    exact ⟨hstop, hg, hr⟩
  have hrun : selectCorporation book p id = (Operation.selectCorporation id).run book p := rfl
  rw [hrun, Operation.run_eq] at h
  rcases Steps.bind_eq_error.mp h with hcommit | ⟨events, t, hcommit, h⟩
  · rcases commit_choice_refused hcommit with hsame | htorn | hv
    · exact .inl hsame
    · exact .inr (.inl htorn)
    · exact .inr (.inr ⟨hv, hstands hv⟩)
  rcases Steps.bind_eq_error.mp h with h | ⟨_, u, hannounced, hrest⟩
  · exact absurd rfl (announce_neverRefuses book events t _ v h e b)
  obtain ⟨d, card, drawn, d', hid, hnone, hfound, hdeals, hgrows⟩ :=
    Operation.choose_announced hcommit hannounced
  simp only [Operation.rest, hfound, Option.bind_some] at hrest
  cases hforced : card.forcedAction? with
  | none =>
    simp only [hforced] at hrest
    cases hrest
  | some f =>
    simp only [hforced] at hrest
    obtain ⟨y, hy, -⟩ := World.player?_of_desk? ((hdeals.desk? d.id).trans (if_pos rfl))
    rw [hid] at hy
    obtain rfl : b = true := by
      obtain ⟨_, _, -, hstop, -⟩ := onStore_eq_error.mp (show onStore _ u = _ from hrest)
      cases hstop
      rfl
    have hfails := not_serves_of_update hrest hy
    have hv : Founded book p id w true v :=
      .begun hfound hforced hcommit hannounced hfails (update_error hrest) hid hnone
        (hdeals.before (update_idle hrest).toSameDesks) hgrows
    exact .inr (.inr ⟨hv, hstands hv⟩)

def steelworks : Card where
  id := "steelworks"
  name := "Steelworks"
  type := .corporation
  behaviors := [
    .corporationStart [{ kind := .resource .credits, amount := 42 }, { kind := .production .steel, amount := 1 }],
    .firstAction { kind := .tilePlacement .city, amount := 1 }]

def menagerie : Card where
  id := "menagerie"
  name := "Menagerie"
  type := .corporation
  behaviors := [.corporationStart [{ kind := .cardStorage .animals, amount := 1, target := some .anyPlayer }]]

def chartering : Rulebook where
  catalog := ⟨[steelworks, menagerie]⟩
  rules := {}
  depth := 8

def undecided (failing : Write) (outage : Outage) : World where
  store := {
    games := [("game", { id := "game" })]
    rosters := [("game", [Player.named "player"])]
    outages := fun c => if c = .write failing then [outage] else [] }
  session := { game := "game" }

theorem selectCorporation_halts_steelworks :
    let w := undecided .forced { times := 1 }
    ∃ v, selectCorporation chartering "player" "steelworks" w =
        (.error (.refused Store.unavailable true), v) ∧
      Founded chartering "player" "steelworks" w true v ∧ ¬ Restored w v := by
  intro w
  have h : (selectCorporation chartering "player" "steelworks" w).1 =
      .error (.refused Store.unavailable true) := by decide +kernel
  have hsome : ((selectCorporation chartering "player" "steelworks" w).2.player? "player").bind
      (·.corporation) = some "steelworks" := by decide +kernel
  rcases hv : selectCorporation chartering "player" "steelworks" w with ⟨result, v⟩
  rw [hv] at h hsome
  obtain rfl : result = .error (.refused Store.unavailable true) := h
  rcases selectCorporation_halts hv with hsame | ⟨hb, -⟩ | ⟨hfounded, hmoved, -⟩
  · rw [hsame.player?] at hsome
    cases hsome
  · cases hb
  · exact ⟨v, rfl, hfounded, hmoved⟩

/-- The corporation, the money and the first action of the player once a choice has been refused, if it is
refused again. -/
def refusedTwice (id : CardId) (failing : Write) (outage : Outage) :
    Option (Option CardId × Int × Option ForcedAction) :=
  let refused := selectCorporation chartering "player" id (undecided failing outage)
  let again := selectCorporation chartering "player" id refused.2
  match refused.1, again.1 with
  | .error _, .error (.refused (.invalidAction _) _) =>
    (refused.2.player? "player").map fun x => (x.corporation, x.resources.credits, x.forced)
  | _, _ => none

/-- One call that fails is enough: the city is never built, or the player is left with a corporation that
does nothing. -/
theorem selectCorporation_stuck :
    refusedTwice "steelworks" .forced { times := 1 } = some (some "steelworks", 42, none) ∧
      refusedTwice "menagerie" .corporation { skip := 1, times := 1 } = some (some "menagerie", 0, none) := by
  decide +kernel

end Engine

end MarsRules
