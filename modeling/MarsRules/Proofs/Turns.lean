import MarsRules.Proofs.Rewound
import MarsRules.Session.Basic

/-! The calls that players make, and what each of them does to the subscriptions and the effects on
record: nothing, or a card has brought both, or what it brought was put back. -/

namespace MarsRules

open Steps (Keeps)

namespace Noted

variable {α β : Type} {owner : PlayerId} {card : CardId} {effects : List CardEffect}

/-- Where these steps are refused, they were rewound. -/
def Rewinds (owner : PlayerId) (card : CardId) (effects : List CardEffect) (x : Noted α) : Prop :=
  ∀ s e b t, x s = (.error (.refused e b), t) →
    Session.Rewound owner card effects s.1.session t.1.session

theorem Rewinds.bind {x : Noted α} {f : α → Noted β} (hx : Keeps Unheard x)
    (hf : ∀ a, Rewinds owner card effects (f a)) : Rewinds owner card effects (x >>= f) := by
  intro s e b t h
  rcases Steps.bind_eq_error.mp h with h | ⟨a, u, hu, h⟩
  · exact .inl (hx.apply h).wrote.same
  · exact .after (hx.apply hu).wrote.same (hf a u e b t h)

end Noted

theorem Session.listen_game (s : Session) (owner : PlayerId) (effects : List CardEffect) :
    (s.listen owner effects).game = s.game := by
  unfold listen
  induction effects.filter (·.isPassive) generalizing s with
  | nil => rfl
  | cons e rest ih => exact (ih _).trans (s.subscribe_game owner e)

/-- What a call did that puts a card into play for a player. -/
inductive World.Turned (catalog : Catalog) (p : PlayerId) (id : CardId) (w v : World) : Prop
  | quiet (h : Quiet w v)
  | added (card : Card) (found : catalog.find? id = some card)
      (same : (w.session.listen p card.effects).Same v.session)
      (recorded : v.recorded.Perm (w.recorded ++ (card.effects.filter (·.listens)).map (p, ·)))
  | rewound (card : Card) (found : catalog.find? id = some card)
      (same : ((w.session.listen p card.effects).unsubscribe card.id).Same v.session)
      (recorded : v.recorded = w.recorded)

namespace World.Turned

variable {catalog : Catalog} {p : PlayerId} {id : CardId} {card : Card} {w v u : World}

theorem after (h : Quiet w v) (h' : Turned catalog p id v u) : Turned catalog p id w u := by
  cases h' with
  | quiet h' => exact .quiet (Trans.trans h h')
  | added card found same recorded =>
    exact .added card found ((h.same.listen p card.effects).trans same) (h.recorded ▸ recorded)
  | rewound card found same recorded =>
    have hlisten := h.same.listen p card.effects
    exact .rewound card found ((hlisten.unsubscribe card.id).trans same) (recorded.trans h.recorded)

theorem before (h : Turned catalog p id w v) (h' : Quiet v u) : Turned catalog p id w u := by
  cases h with
  | quiet h => exact .quiet (Trans.trans h h')
  | added card found same recorded =>
    exact .added card found (same.trans h'.same) (h'.recorded ▸ recorded)
  | rewound card found same recorded =>
    exact .rewound card found (same.trans h'.same) (h'.recorded.trans recorded)

theorem of_restored (found : catalog.find? id = some card) (h : Restored w v)
    (hs : Session.Rewound p card.id card.effects w.session v.session) : Turned catalog p id w v := by
  rcases hs with hs | hs
  · exact .quiet (h.quiet hs)
  · exact .rewound card found hs (by unfold recorded; rw [h.game, h.records])

theorem of_record {f : Game → Game} {player after : Player} (found : catalog.find? id = some card)
    (hp : w.player? player.id = some player) (hid : after.id = player.id)
    (heffects : after.effects = player.effects ++ card.effects)
    (hs : v.session = w.session.listen player.id card.effects)
    (hr : v.records =
      (w.records.changeGame w.game f).changePlayer w.game player.id fun _ => after) :
    Turned catalog player.id id w v := by
  refine .added card found (hs ▸ .refl _) ?_
  have hgame : v.game = w.game := by
    show v.session.game = _
    rw [hs, Session.listen_game]
    rfl
  have hp : (w.records.changeGame w.game f).player? w.game player.id = some player := by
    rw [Records.player?_changeGame]
    exact hp
  have hstanding : after.standing =
      player.standing ++ (card.effects.filter (·.listens)).map (player.id, ·) := by
    simp [Player.standing, hid, heffects]
  show (v.records.standing v.game).Perm _
  rw [hgame, hr]
  refine (Records.standing_changePlayer_perm hp hstanding).trans ?_
  rw [Records.standing_changeGame]
  rfl

end World.Turned

/-- A call came to its end, or it was refused and all that was noted has been put back. -/
def Finished {α : Type} (result : Except Stop α) : Prop :=
  ∀ stop, result = .error stop → ∃ e, stop = .refused e true

theorem Finished.of_ok {α : Type} {result : Except Stop α} {a : α} (h : result = .ok a) :
    Finished result := fun stop hs => by cases h.symm.trans hs

theorem Finished.of_refused {α : Type} {result : Except Stop α} {e : Refusal}
    (h : result = .error (.refused e true)) : Finished result := fun stop hs => by
  cases h.symm.trans hs
  exact ⟨e, rfl⟩

namespace Engine

variable {α β : Type} {book : Rulebook} {catalog : Catalog} {p : PlayerId} {id : CardId} {w v : World}

/-- The steps finish with nothing else done than putting the card into play. -/
def Turns (catalog : Catalog) (p : PlayerId) (id : CardId) (x : Engine α) : Prop :=
  ∀ w result v, x w = (result, v) → Finished result → World.Turned catalog p id w v

theorem Turns.after {x : Engine α} {f : α → Engine β} (hx : Keeps World.Quiet x)
    (hf : ∀ w a v, x w = (.ok a, v) → Turns catalog p id (f a)) : Turns catalog p id (x >>= f) := by
  intro w result v h hr
  rw [Steps.bind_apply] at h
  rcases hw : x w with ⟨stop | a, u⟩ <;> rw [hw] at h
  · cases h
    exact .quiet (hx.apply hw)
  · exact .after (hx.apply hw) (hf w a u hw u result v h hr)

theorem Turns.before {x : Engine α} {f : α → Engine β} (hx : Turns catalog p id x)
    (hf : ∀ a, Keeps World.Quiet (f a)) : Turns catalog p id (x >>= f) := by
  intro w result v h hr
  rw [Steps.bind_apply] at h
  rcases hw : x w with ⟨stop | a, u⟩ <;> rw [hw] at h
  · cases h
    exact hx w _ v hw fun _ hs => hr _ (congrArg _ (Except.error.inj hs))
  · exact .before (hx w _ u hw fun stop hs => by cases hs) ((hf a).apply h)

theorem writePlay_rewinds (rules : Rules) (player : Player) (card : Card) (r : PlayRequest)
    (paid : ResourceSet) :
    Noted.Rewinds player.id card.id card.effects (writePlay rules player card r paid) := by
  have hover (f : PlayerField) : Keeps Unheard (Noted.overwrite player f) :=
    Noted.overwrite_recorded fun _ _ => trivial
  refine .bind ((hover _).when _) fun _ => .bind (hover _) fun _ => .bind (hover _) fun _ => .bind ?_ ?_
  · unfold startTokens
    split
    · exact hover _
    · exact Keeps.pure _
  · rintro - ⟨u, noted⟩ e b t h
    obtain ⟨hstop, rfl⟩ := Prod.ext_iff.mp ((Noted.ofEngine_apply _ u noted).symm.trans h)
    exact commitCard_rewound (Prod.ext hstop rfl)

/-- A play that is refused has subscribed nothing, or dropped what it had subscribed. -/
theorem commitPlay_rewound {r : PlayRequest} {e : Refusal} {b : Bool}
    (h : commitPlay book p r w = (.error (.refused e b), v)) : w.session.Same v.session ∨
      ∃ card, book.catalog.find? r.card = some card ∧
        Session.Rewound p card.id card.effects w.session v.session := by
  rcases Steps.bind_eq_error.mp h with h | ⟨⟨player, card, paid⟩, u, hcheck, h⟩
  · exact .inl ((checkPlay_alike book p r).apply h).quiet.same
  obtain ⟨hu, -, hp, hcard, -⟩ := checkPlay_ok hcheck
  obtain rfl := World.player?_id hp
  refine .inr ⟨card, hcard, ?_⟩
  rcases Steps.bind_eq_error.mp h with h | ⟨events, t, -, h⟩
  · obtain ⟨b', x, noted, hsteps, hv⟩ := transact_keepAll_session h
    rw [hv]
    exact .after hu.quiet.same (writePlay_rewinds _ _ _ _ _ _ _ _ _ hsteps)
  · exact absurd rfl (gameId_neverRefuses.bind (fun _ => Steps.StopsOnly.pure _) t _ v h e b)

theorem commitPlay_turns (book : Rulebook) (p : PlayerId) (r : PlayRequest) :
    Turns book.catalog p r.card (commitPlay book p r) := by
  rintro w (stop | events) v h hr
  · obtain ⟨e, rfl⟩ := hr stop rfl
    have hrestored := commitPlay_reverts book p r w e v h
    rcases commitPlay_rewound h with hs | ⟨card, hcard, hs⟩
    · exact .quiet (hrestored.quiet hs)
    · exact .of_restored hcard hrestored hs
  · obtain ⟨game, player, card, parameters, after, -, hp, hcard, hplayed⟩ := commitPlay_played h
    obtain rfl := World.player?_id hp
    exact .of_record hcard hp hplayed.record.id hplayed.record.effects hplayed.session hplayed.records

theorem commitCard_turned {card : Card} {rules : Rules} {choice : Option Nat} {target : Option CardId}
    {events : List Event} {w v : World} (found : catalog.find? id = some card)
    (h : commitCard rules p card choice target w = (.ok events, v)) : World.Turned catalog p id w v := by
  obtain ⟨player, t, hplayer, -⟩ := Steps.bind_eq_ok.mp h
  have hp := (readPlayer_ok hplayer).1
  obtain rfl := World.player?_id hp
  obtain ⟨board, hb⟩ := w.exists_playsOn
  obtain ⟨plan, hof, -, hx⟩ := commitCard_reached h (World.Reached.start hp) rfl rfl hb
  have hgains := (Plan.ofCard_gains hof).1
  have hplayer : plan.player = player.id := hgains.player
  have heffects : plan.effects = card.effects := hgains.effects
  obtain ⟨x, hx, hid, hadded, hs⟩ : ∃ x, w.Reached x v ∧ x.player.id = player.id ∧
      x.player.effects = player.effects ++ card.effects ∧
      x.session = w.session.listen player.id card.effects := by
    refine ⟨_, hx, ?_, ?_, ?_⟩
    · rw [Plan.reached_player]; rfl
    · rw [Plan.reached_player, ← heffects]; rfl
    · rw [Session.listen, ← heffects, ← hplayer]; rfl
  have hrecords := hx.records
  rw [hid] at hrecords
  exact .of_record found hp hid hadded (hx.session.trans hs) hrecords

theorem commitCard_turns {card : Card} {rules : Rules} {choice : Option Nat} {target : Option CardId}
    {putBack : Engine Unit} (found : catalog.find? id = some card) (hback : Keeps World.Quiet putBack) :
    Turns catalog p id ((commitCard rules p card choice target).orElse putBack) := by
  rintro w (stop | events) v h hr
  · obtain ⟨e, rfl⟩ := hr stop rfl
    obtain ⟨u, hc, hb⟩ := orElse_eq_restored h
    have hrestored := commitCard_reverts rules p card choice target w e u hc
    exact .before (.of_restored found hrestored (commitCard_rewound hc)) (hback.apply hb)
  · exact commitCard_turned found (orElse_eq_ok.mp h)

theorem play_turns (book : Rulebook) (p : PlayerId) (r : PlayRequest) :
    Turns book.catalog p r.card (play book p r) :=
  (commitPlay_turns book p r).before fun events => announce_quiet book events

theorem selectCorporation_turns (book : Rulebook) (p : PlayerId) (id : CardId) :
    Turns book.catalog p id (selectCorporation book p id) := by
  have hcorporation (c : Option CardId) : Keeps World.Quiet (update p (.corporation c)) :=
    update_quiet (by simp [PlayerField.write])
  refine .after (alike_quiet (findCard_alike _ _)) fun w card v hfind => ?_
  refine .after (alike_quiet (ofExcept_alike _)) fun _ _ _ _ => ?_
  refine .after (alike_quiet (readPlayer_alike p)) fun _ player _ _ => ?_
  refine .after (alike_quiet (ofExcept_alike _)) fun _ _ _ _ => ?_
  refine .after (hcorporation _) fun _ _ _ _ => ?_
  refine .before (commitCard_turns (findCard_ok hfind) (hcorporation none)) fun events => ?_
  refine (announce_quiet book events).bind fun _ => ?_
  split
  · exact update_quiet (by simp [PlayerField.write])
  · exact Keeps.pure _

end Engine

/-- What a player can call for in a session. -/
inductive Operation where
  | selectCorporation (id : CardId)
  | play (r : PlayRequest)
  | useAction (card : CardId) (index : Nat) (choice : Option Nat) (target : Option CardId)
  | place (c : Coord)
  | confirmDraw (picked : List CardId)

namespace Operation

def run (book : Rulebook) (p : PlayerId) : Operation → Engine Unit
  | selectCorporation id => Engine.selectCorporation book p id
  | play r => Engine.play book p r
  | useAction card index choice target => Engine.useAction book p card index choice target
  | place c => do let _ ← Engine.place book p c
  | confirmDraw picked => Engine.confirmDraw book p picked

/-- The card that is to be put into play. -/
def card? : Operation → Option CardId
  | selectCorporation id => some id
  | play r => some r.card
  | useAction .. | place _ | confirmDraw _ => none

theorem run_turns (book : Rulebook) (p : PlayerId) (op : Operation) {w v : World}
    {result : Except Stop Unit} (h : op.run book p w = (result, v)) (hr : Finished result) :
    World.Quiet w v ∨ ∃ id, op.card? = some id ∧ World.Turned book.catalog p id w v := by
  cases op with
  | selectCorporation id => exact .inr ⟨id, rfl, Engine.selectCorporation_turns book p id w _ v h hr⟩
  | play r => exact .inr ⟨r.card, rfl, Engine.play_turns book p r w _ v h hr⟩
  | useAction card index choice target =>
    exact .inl ((Engine.useAction_quiet book p card index choice target).apply h)
  | place c =>
    have hplace : Keeps World.Quiet (run book p (place c)) :=
      (Engine.place_quiet book p c).bind fun _ => Keeps.pure _
    exact .inl (hplace.apply h)
  | confirmDraw picked => exact .inl ((Engine.confirmDraw_quiet book p picked).apply h)

end Operation

end MarsRules
