import MarsRules.Proofs.Apart
import MarsRules.Proofs.Payouts
import MarsRules.Proofs.Triggering

/-! What those do who hear of an event and pay nothing. They look at nothing of the session but its
game, and leave everybody's funds alone. -/

namespace MarsRules

open Steps (Keeps Confined)

/-- Two worlds with the same store and the session on the same game. -/
def World.Tied (w v : World) : Prop := w.store = v.store ∧ w.game = v.game

namespace Engine

variable {α : Type} {p : PlayerId}

/-- The steps go by nothing of the session but the game, and leave all of it. -/
abbrev Blind (x : Engine α) : Prop := Confined World.Tied World.SameSession x

theorem onStore_blind (x : StoreSteps α) : Blind (onStore x) where
  alike w v h := by
    obtain ⟨hs, hg⟩ := h
    unfold onStore
    rw [← hs]
    rcases x w.store with ⟨_ | _, s⟩ <;> exact ⟨rfl, rfl, hg⟩
  within := onStore_sameSession x

theorem gameId_blind : Blind gameId := .look (r := fun w => .ok w.game) (fun _ => rfl) fun _ _ h => by
  rw [h.2]

theorem ofExcept_blind (y : Except Refusal α) : Blind (ofExcept y) := by
  cases y
  · exact .stop _
  · exact .pure _

theorem update_blind (f : PlayerField) : Blind (update p f) := gameId_blind.bind fun _ => onStore_blind _

/-- What is put before the players goes by nothing else. -/
def blindLaw : OfferLaw where
  holds := Blind
  plays _ := True
  pure := .pure
  bind := .bind
  gameId h := gameId_blind.bind fun g => h g trivial
  ofExcept := ofExcept_blind
  readGame := gameId_blind.bind fun _ => onStore_blind _
  readPlayer _ := gameId_blind.bind fun _ => onStore_blind _
  findCard _ _ := (onStore_blind _).bind fun _ => ofExcept_blind _
  offer _ f _ := update_blind f
  offerCards _ _ _ := gameId_blind.bind fun _ => (onStore_blind _).bind fun _ => update_blind _

theorem watchForced_blind (catalog : Catalog) (e : Event) : Blind (watchForced catalog e) :=
  blindLaw.watchForced catalog e

end Engine

/-- A player's record once a selection of this source is resolved. -/
def Player.answer (x : Player) (source : String) : Player :=
  { x with forced := x.forced.map (·.answered source) }

theorem Player.answer_eq_put {x : Player} {f : ForcedAction} {source : String}
    (hf : x.forced = some f) (h : f.matches source) :
    x.answer source = PlayerField.put (.forced (some { f with state := .completed })) x := by
  rw [answer, hf, Option.map_some, ForcedAction.answered_of_matches h]
  rfl

theorem Player.answer_eq_self {x : Player} {source : String}
    (h : ∀ f, x.forced = some f → ¬ f.matches source) : x.answer source = x := by
  unfold answer
  cases hf : x.forced with
  | none => rw [Option.map_none, ← hf]
  | some f => rw [Option.map_some, ForcedAction.answered_of_not (h f hf), ← hf]

theorem CardEffect.game_of_firesOn {effect : CardEffect} {g : GameId} {e : Event}
    (h : effect.firesOn g e = true) : e.game = g :=
  eq_of_beq (Bool.and_eq_true_iff.mp h).1

namespace Engine

theorem watchForced_of_unanswered {effect : CardEffect} {e : Event} {w : World}
    (hf : effect.firesOn w.game e = true) (ha : e.answers? = none) (catalog : Catalog) :
    watchForced catalog e w = (.ok (), w) := by
  have hmet : effect.behavior.condition?.any (·.isMetBy e) = true := (Bool.and_eq_true_iff.mp hf).2
  have hheard : (gameId >>= fun g => if e.game ≠ g then pure () else pure () : Engine Unit) w =
      (.ok (), w) := by
    rw [Steps.bind_apply_ok (show gameId w = (.ok w.game, w) from rfl), ite_self]
    rfl
  cases e with
  | phaseChanged | drawConfirmed => simp [Condition.isMetBy] at hmet
  | tilePlaced e =>
    have hsource : e.source = none := by simpa [Event.answers?] using ha
    refine Eq.trans ?_ hheard
    unfold watchForced
    simp only [hsource]
  | parameterChanged | cardPlayed | bonusGained => exact hheard

theorem completeForced_of_reliable {w : World} (hw : w.store.Reliable) (p : PlayerId) (source : String) :
    ∃ v, v.store.Reliable ∧ w.Becomes (w.records.changePlayer w.game p (·.answer source)) v ∧
      completeForced p source w =
        ((w.player? p).elim (.error (.refused (.playerNotFound w.game p) true)) fun _ => .ok (), v) := by
  obtain ⟨u, hu, ha, hread⟩ := readPlayer_of_reliable hw p
  have hstays (h : ∀ x, w.player? p = some x → ∀ f, x.forced = some f → ¬ f.matches source) :
      w.Becomes (w.records.changePlayer w.game p (·.answer source)) u := by
    rw [Records.changePlayer_of_player? fun x hx => Player.answer_eq_self (h x hx)]
    exact .of_alike ha
  cases hp : w.player? p with
  | none =>
    rw [hp] at hread
    exact ⟨u, hu, hstays fun x hx => (by cases hp.symm.trans hx), Steps.bind_apply_error hread⟩
  | some x =>
    rw [hp] at hread
    have hcomplete : completeForced p source w = _ := Steps.bind_apply_ok hread
    cases hforced : x.forced with
    | none =>
      simp only [hforced] at hcomplete
      refine ⟨u, hu, hstays fun y hy f hf => ?_, hcomplete⟩
      obtain rfl := Option.some.inj (hp.symm.trans hy)
      cases hforced.symm.trans hf
    | some forced =>
      simp only [hforced] at hcomplete
      split at hcomplete
      · next hmatches =>
        obtain ⟨v, hupdate, hv, hbecomes⟩ :=
          update_of_reliable hu ((ha.player? p).trans hp) (.forced (some { forced with state := .completed }))
        refine ⟨v, hv, ?_, hcomplete.trans hupdate⟩
        have hrecords : u.records.changePlayer u.game p
              (PlayerField.put (.forced (some { forced with state := .completed }))) =
            w.records.changePlayer w.game p (·.answer source) := by
          rw [World.game, ha.session, show u.records = w.records from ha.store.records]
          refine Records.changePlayer_congr fun y hy => ?_
          obtain rfl := Option.some.inj (hp.symm.trans hy)
          exact (Player.answer_eq_put hforced hmatches).symm
        exact hrecords ▸ (World.Becomes.of_alike ha).trans hbecomes
      · next hmatches =>
        refine ⟨u, hu, hstays fun y hy f hf => ?_, hcomplete⟩
        obtain rfl := Option.some.inj (hp.symm.trans hy)
        exact Option.some.inj (hforced.symm.trans hf) ▸ hmatches

end Engine

/-- The numbers of a player's record that effects pay into. -/
def Player.funds (x : Player) : ResourceSet × ResourceSet × Int × Table Int :=
  (x.resources, x.production, x.rating, x.storage)

theorem Player.withFunds_of_funds {x z : Player} (h : z.funds = x.funds) : z = z.withFunds x := by
  obtain ⟨hresources, hproduction, hrating, hstorage⟩ : z.resources = x.resources ∧
      z.production = x.production ∧ z.rating = x.rating ∧ z.storage = x.storage := by
    simpa [funds] using h
  rw [withFunds, ← hresources, ← hproduction, ← hrating, ← hstorage]

/-- Nobody has come or gone, or been paid anything. -/
structure World.SameFunds (w v : World) : Prop where
  game : v.game = w.game
  funds : ∀ p, (v.player? p).map (·.funds) = (w.player? p).map (·.funds)

instance : Std.Refl World.SameFunds := ⟨fun _ => ⟨rfl, fun _ => rfl⟩⟩

instance : Trans World.SameFunds World.SameFunds World.SameFunds :=
  ⟨fun h h' => ⟨h'.game.trans h.game, fun p => (h'.funds p).trans (h.funds p)⟩⟩

theorem World.SameFunds.isSome {w v : World} (h : w.SameFunds v) (p : PlayerId) :
    (v.player? p).isSome = (w.player? p).isSome := by
  simpa using congrArg Option.isSome (h.funds p)

theorem Records.funds_changePlayer {r : Records} {g : GameId} {p : PlayerId} {f : Player → Player}
    (hid : ∀ x, (f x).id = x.id) (hf : ∀ x, (f x).funds = x.funds) (q : PlayerId) :
    ((r.changePlayer g p f).player? g q).map (·.funds) = (r.player? g q).map (·.funds) := by
  have hid (x : Player) (hx : x.id = p) : (f x).id = p := (hid x).trans hx
  by_cases hq : q = p
  · subst hq
    rw [player?_changePlayer hid, Option.map_map]
    exact congrArg (Option.map · _) (funext hf)
  · rw [player?_changePlayer_of_ne hq hid]

theorem Records.funds_putAll {es : List Entry} (h : ∀ e ∈ es, e.Offers) (g : GameId) (r : Records)
    (p : PlayerId) : ((r.putAll g es).player? g p).map (·.funds) = (r.player? g p).map (·.funds) := by
  induction es generalizing r with
  | nil => rfl
  | cons e rest ih =>
    obtain ⟨he, hrest⟩ := List.forall_mem_cons.mp h
    refine (ih hrest _).trans ?_
    cases e with
    | player q f =>
      refine funds_changePlayer f.id_put (fun x => ?_) p
      cases f <;> first | rfl | simp [Entry.Offers, PlayerField.write] at he
    | parameter => exact he.elim

theorem Engine.watchForced_sameFunds (catalog : Catalog) (e : Event) :
    Keeps World.SameFunds (watchForced catalog e) := by
  intro w
  have h : World.Wrote Entry.Offers w (watchForced catalog e w).2 :=
    watchForced_wrote (fun _ h => h) catalog e w
  obtain ⟨es, hr, hes⟩ := h.store
  have hr : (watchForced catalog e w).2.records = w.records.putAll w.game es := hr
  refine ⟨h.game, fun p => ?_⟩
  show ((World.records _).player? (World.game _) p).map _ = _
  rw [h.game, hr]
  exact Records.funds_putAll hes w.game w.records p

end MarsRules
