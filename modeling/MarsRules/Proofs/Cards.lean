import MarsRules.Proofs.Dealing

/-! Where the cards of a game are. No request makes a card or puts one in two places, unless a write
fails (`Log.cards_nodup`). -/

namespace MarsRules

/-- The cards of a player: those in the hand, those played, and those that can be taken. -/
def Desk.cards (d : Desk) : List CardId := d.hand ++ d.played ++ d.toTake

/-- The cards of the session's game, wherever they are. -/
def World.cards (w : World) : List CardId := w.deck ++ w.desks.flatMap Desk.cards

section First

variable {α β : Type} {p : α → Bool} {f : α → α} {h : α → List β} {l : List β}

theorem flatMap_changeFirst_exchange {xs : List α} {a : α} (hx : xs.find? p = some a) :
    ∃ rest, (xs.flatMap h).Perm (h a ++ rest) ∧ ((changeFirst p f xs).flatMap h).Perm (h (f a) ++ rest) := by
  induction xs with
  | nil => cases hx
  | cons b xs ih =>
    cases hp : p b
    · simp only [List.find?_cons, hp] at hx
      obtain ⟨rest, hxs, hchanged⟩ := ih hx
      refine ⟨h b ++ rest, ?_, ?_⟩
      · rw [List.flatMap_cons]
        exact (hxs.append_left (h b)).trans (List.perm_append_comm_assoc _ _ _)
      · simp only [changeFirst, hp, Bool.false_eq_true, if_false, List.flatMap_cons]
        exact (hchanged.append_left (h b)).trans (List.perm_append_comm_assoc _ _ _)
    · obtain rfl : b = a := by simpa [hp] using hx
      refine ⟨xs.flatMap h, by simp, ?_⟩
      simp [changeFirst, hp]

end First

namespace Desk

variable {d d' : Desk} {drawn : List CardId} {book : Rulebook} {w : World} {request : Request}

theorem Grows.cards (h : d.Grows drawn d') : d'.cards.Perm (d.cards ++ drawn) := by
  unfold Desk.cards
  rw [h.hand, h.played, h.toTake, List.append_assoc _ _ drawn]

theorem Step.cards (h : d.Step book w request drawn d') : d'.cards.Subperm (d.cards ++ drawn) := by
  cases h with
  | choose undecided found grows => exact grows.cards.subperm
  | use grows => exact grows.cards.subperm
  | @play r card _ _ found held grows =>
    have hmoved : (card.id :: d.hand.filter (· ≠ card.id)).Subperm d.hand :=
      List.cons_subperm_of_not_mem_of_mem (by simp) held List.filter_sublist.subperm
    have hplayed : (d.hand.filter (· ≠ card.id) ++ (d.played ++ [card.id])).Perm
        (card.id :: d.hand.filter (· ≠ card.id) ++ d.played) := by
      rw [← List.append_assoc]
      exact List.perm_append_singleton _ _
    refine grows.cards.subperm.trans ((List.subperm_append_right drawn).mpr ?_)
    refine (List.subperm_append_right d.toTake).mpr (hplayed.subperm.trans ?_)
    exact (List.subperm_append_right d.played).mpr hmoved
  | place offered listed heard =>
    rw [List.append_nil]
    exact .refl _
  | @keep picked offer forced offered once taken heard =>
    have htake : d.toTake = offer.cards := by rw [toTake, offered]; rfl
    have hpicked : (picked ++ d.played).Subperm (d.played ++ d.toTake) :=
      htake ▸ List.perm_append_comm.subperm.trans
        ((List.subperm_append_left d.played).mpr (List.subperm_of_subset once taken))
    simpa [Desk.cards, toTake] using (List.subperm_append_left d.hand).mpr hpicked
  | @trigger _ f corporation item _ d₁ asked awaits opens =>
    cases opens with
    | draw =>
      refine (List.subperm_append_right _).mpr ?_
      exact (List.sublist_append_left _ _).subperm
    | tile =>
      rw [List.append_nil]
      exact .refl _

theorem Step.held (h : d.Step book w request drawn d') :
    d.played ⊆ d'.played ∧ ∀ c ∈ d.hand, c ∈ d'.hand ∨ c ∈ d'.played := by
  cases h with
  | choose undecided found grows | use grows =>
    rw [grows.hand, grows.played]
    exact ⟨.refl _, fun _ => .inl⟩
  | @play r card _ _ found held grows =>
    rw [grows.hand, grows.played]
    refine ⟨List.subset_append_left _ _, fun c hc => ?_⟩
    by_cases hcard : c = card.id
    · exact .inr (by simp [hcard])
    · exact .inl (by simp [hc, hcard])
  | place => exact ⟨.refl _, fun _ => .inl⟩
  | keep => exact ⟨.refl _, fun _ hc => .inl (List.mem_append_left _ hc)⟩
  | trigger asked awaits opens => cases opens <;> exact ⟨.refl _, fun _ => .inl⟩

theorem Step.offered (h : d.Step book w request drawn d') : drawn <:+ d'.toTake := by
  cases h with
  | choose undecided found grows | play found held grows | use grows =>
    rw [grows.toTake]
    exact List.suffix_append _ _
  | place | keep => exact List.nil_suffix
  | trigger asked awaits opens =>
    cases opens with
    | draw => exact List.suffix_rfl
    | tile => exact List.nil_suffix

end Desk

/-- Cards have moved: these off the top of the deck into an offer, and out of a hand only among the
cards that its player has played. -/
structure World.CardsMove (w v : World) (drawn : List CardId) : Prop where
  cards : v.cards.Subperm w.cards
  deck : w.deck = drawn ++ v.deck
  offered : drawn = [] ∨ ∃ p d, v.desk? p = some d ∧ drawn <:+ d.toTake
  held : ∀ p d, w.desk? p = some d → ∃ d', v.desk? p = some d' ∧ d.played ⊆ d'.played ∧
    ∀ c ∈ d.hand, c ∈ d'.hand ∨ c ∈ d'.played

namespace World

variable {w v : World} {d d' : Desk} {drawn : List CardId}

theorem Deals.cards (h : Deals w v d drawn d') (hd : d'.cards.Subperm (d.cards ++ drawn)) :
    v.cards.Subperm w.cards := by
  obtain ⟨rest, hw, hv⟩ := flatMap_changeFirst_exchange (f := fun _ => d') (h := Desk.cards) h.there
  have hmore : (v.deck ++ (d'.cards ++ rest)).Subperm (v.deck ++ (drawn ++ (d.cards ++ rest))) := by
    refine (List.subperm_append_left v.deck).mpr ?_
    rw [← List.append_assoc drawn]
    exact (List.subperm_append_right rest).mpr (hd.trans List.perm_append_comm.subperm)
  have hback : (v.deck ++ (drawn ++ (d.cards ++ rest))).Perm
      (drawn ++ v.deck ++ w.desks.flatMap Desk.cards) := by
    rw [List.append_assoc]
    exact (List.perm_append_comm_assoc _ _ _).trans ((hw.symm.append_left v.deck).append_left drawn)
  unfold World.cards
  rw [h.desks, h.deck]
  exact ((hv.append_left v.deck).subperm.trans hmore).trans hback.subperm

theorem SameDesks.cardsMove (h : SameDesks w v) : w.CardsMove v [] where
  cards := by
    unfold World.cards
    rw [h.desks, h.deck]
  deck := h.deck.symm
  offered := .inl rfl
  held p d hd := ⟨d, (h.desk? p).trans hd, .refl _, fun _ => .inl⟩

theorem Dealt.cardsMove {book : Rulebook} {request : Request} {result : Except Stop Unit}
    (h : w.Dealt book request result v) (writes : ∀ c : Write, ¬ w.store.MayFail c) :
    ∃ drawn, w.CardsMove v drawn := by
  cases h with
  | idle same => exact ⟨[], same.cardsMove⟩
  | @step _ d d' drawn deals step =>
    have hthere := (deals.desk? d.id).trans (if_pos rfl)
    refine ⟨drawn, deals.cards step.cards, deals.deck, .inr ⟨d.id, d', hthere, step.offered⟩, ?_⟩
    intro p e he
    by_cases hp : p = d.id
    · subst hp
      obtain rfl := Option.some.inj (deals.there.symm.trans he)
      exact ⟨d', hthere, step.held⟩
    · exact ⟨e, (deals.desk? p).trans ((if_neg hp).trans he), .refl _, fun _ => .inl⟩
  | spoilt h => exact (h.mayFail.elim fun c hc => writes c hc).elim

end World

/-- The cards that a request has taken off the deck. -/
def Made.drawn (m : Made) : List CardId :=
  m.before.deck.take (m.before.deck.length - m.after.deck.length)

theorem World.CardsMove.drawn_eq {m : Made} {drawn : List CardId}
    (h : m.before.CardsMove m.after drawn) : m.drawn = drawn := by
  unfold Made.drawn
  rw [h.deck, List.length_append, Nat.add_sub_cancel]
  exact List.take_left

namespace Log

variable {book : Rulebook} {w₀ w : World} {made : List Made}

theorem cardsMove (h : Log book w₀ made w) (writes : ∀ m ∈ made, ∀ c : Write, ¬ m.before.store.MayFail c) :
    w.cards.Subperm w₀.cards ∧ w₀.deck = made.flatMap Made.drawn ++ w.deck ∧
      ∀ m ∈ made, m.before.CardsMove m.after m.drawn := by
  induction h with
  | start => exact ⟨.refl _, (List.nil_append _).symm, fun _ hm => absurd hm List.not_mem_nil⟩
  | @next made w h m outages before run finished ih =>
    obtain ⟨hcards, hdeck, hmoves⟩ := ih fun m' hm' => writes m' (List.mem_append_left _ hm')
    obtain ⟨drawn, hmove⟩ := (Request.run_dealt run finished).cardsMove (writes m (by simp))
    obtain rfl := hmove.drawn_eq
    have hbefore : m.before.cards = w.cards ∧ m.before.deck = w.deck := by
      rw [before]
      exact ⟨rfl, rfl⟩
    refine ⟨hmove.cards.trans (hbefore.1 ▸ hcards), ?_, fun m' hm' => ?_⟩
    · rw [hdeck, ← hbefore.2, hmove.deck, List.flatMap_append, List.append_assoc]
      simp
    · rcases List.mem_append.mp hm' with hm' | hm'
      · exact hmoves m' hm'
      · obtain rfl := List.mem_singleton.mp hm'
        exact hmove

/-- As long as no write can fail, no card is ever in two places or twice in one, none appears, those
that are drawn come off the top of the deck one draw after the other and are put on offer, and a card
leaves a hand only to lie among the cards that its player has played. -/
theorem cards_nodup (h : Log book w₀ made w) (nodup : w₀.cards.Nodup)
    (writes : ∀ m ∈ made, ∀ c : Write, ¬ m.before.store.MayFail c) :
    w.cards.Nodup ∧ w.cards ⊆ w₀.cards ∧ w₀.deck = made.flatMap Made.drawn ++ w.deck ∧
      ∀ m ∈ made, m.before.CardsMove m.after m.drawn := by
  obtain ⟨hcards, hdeck, hmoves⟩ := h.cardsMove writes
  have hsubset := hcards.subset
  obtain ⟨left, hperm, hsub⟩ := hcards
  exact ⟨hperm.nodup_iff.mp (hsub.nodup nodup), hsubset, hdeck, hmoves⟩

/-- A card that draws another. -/
def lookout : Card where
  id := "lookout"
  name := "Lookout"
  type := .automated
  behaviors := [.immediate [{ kind := .cardDraw, amount := 1 }]]

def watchtower : Rulebook where
  catalog := ⟨[lookout]⟩
  rules := {}
  depth := 8

def tower : World where
  store := {
    games := [("game", { id := "game" })]
    rosters := [("game", [{ Player.named "player" with hand := ["lookout"] }])]
    decks := [("game", ["ants", "birds"])] }
  session := (Session.new "game" false).watch

def lookoutPlayed : Made :=
  .of watchtower (.call (.act "player" (.play { card := "lookout" }))) (tower.withOutages fun _ => [])

def antsTaken : Made :=
  .of watchtower (.call (.act "player" (.confirmDraw ["ants"]))) (lookoutPlayed.after.withOutages fun _ => [])

theorem cards_nodup_lookout : ∃ made w, Log watchtower tower made w ∧
    w.deck = ["birds"] ∧ made.flatMap Made.drawn = ["ants"] ∧ w.cards.Nodup ∧
    w.cards ⊆ ["ants", "birds", "lookout"] ∧
    ∀ m ∈ made, m.before.CardsMove m.after m.drawn := by
  have hplayed : Log watchtower tower [lookoutPlayed] lookoutPlayed.after :=
    Log.step .start (fun _ => []) (.of_ok (a := ()) (by decide +kernel))
  have hlog : Log watchtower tower [lookoutPlayed, antsTaken] antsTaken.after :=
    Log.step hplayed (fun _ => []) (.of_ok (a := ()) (by decide +kernel))
  have hwrites : ∀ m ∈ [lookoutPlayed, antsTaken], ∀ c : Write, ¬ m.before.store.MayFail c := by
    intro m hm c ⟨o, ho, _⟩
    simp only [List.mem_cons, List.not_mem_nil, or_false] at hm
    rcases hm with rfl | rfl <;> cases ho
  obtain ⟨hnodup, hsubset, hdeck, hmoves⟩ := cards_nodup hlog (by decide +kernel) hwrites
  have hleft : antsTaken.after.deck = ["birds"] := by decide +kernel
  refine ⟨_, _, hlog, hleft, ?_, hnodup, hsubset, hmoves⟩
  rw [hleft] at hdeck
  exact (List.append_cancel_right (show ["ants"] ++ ["birds"] = _ ++ _ from hdeck)).symm

end Log

end MarsRules
