import MarsRules.Proofs.Bystanders
import MarsRules.Proofs.Interleaving

/-! What an event brings the players whose passive effects hear of it: to each of them the sum of what
the player's own effects grant, whichever of the effects were subscribed first, on top of what the
same event does on a bus without them. -/

namespace MarsRules

namespace Bus

variable (b : Bus Listener) (kind : EventKind)

/-- The effects that hear of an event, with their owners, in the order they were subscribed. -/
def effects : List (PlayerId × CardEffect) := (b.listeners kind).filterMap (·.handler.effect?)

/-- The other listeners that hear of it. -/
def others : List Listener := ((b.listeners kind).map (·.handler)).filter (·.effect?.isNone)

/-- The bus without its effects. -/
def withoutEffects : Bus Listener :=
  { b with subscriptions := b.subscriptions.filter (·.handler.effect?.isNone) }

variable {b : Bus Listener} {kind : EventKind}

theorem isRegistered_of_listeners {s : Subscription Listener} (hs : s ∈ b.listeners kind) :
    b.isRegistered s.id = true :=
  List.any_eq_true.mpr ⟨s, (List.mem_filter.mp hs).1, by simp⟩

theorem listeners_withoutEffects :
    (b.withoutEffects.listeners kind).map (·.handler) = b.others kind := by
  unfold listeners withoutEffects others listeners
  rw [List.filter_map, List.filter_filter, List.filter_filter]
  simp only [Function.comp_def, Bool.and_comm]

end Bus

/-- The same world where the session listens on another bus. -/
def World.onBus (w : World) (b : Bus Listener) : World :=
  { w with session := { w.session with bus := b } }

theorem CardEffect.pay_answer (effect : CardEffect) (g : GameId) (e : Event) (source : String)
    (x : Player) : effect.pay g e (x.answer source) = (effect.pay g e x).answer source := by
  have hforced : (effect.pay g e x).forced = x.forced := by rw [effect.pay_funds]; rfl
  rw [Player.answer, pay_forced, Player.answer, hforced]

namespace Records

variable {g : GameId} {e : Event} {p : PlayerId} {effects more : List (PlayerId × CardEffect)} {r : Records}

/-- What the effects pay, one after the other. -/
def payAll (g : GameId) (e : Event) (effects : List (PlayerId × CardEffect)) (r : Records) : Records :=
  effects.foldl (fun r x => r.changePlayer g x.1 (x.2.pay g e)) r

theorem payAll_append (r : Records) :
    payAll g e (effects ++ more) r = payAll g e more (payAll g e effects r) := List.foldl_append ..

theorem payAll_idle (h : ∀ effect : CardEffect, effect.firesOn g e = false)
    (effects : List (PlayerId × CardEffect)) (r : Records) : payAll g e effects r = r := by
  induction effects generalizing r with
  | nil => rfl
  | cons x rest ih =>
    exact (ih _).trans (changePlayer_of_player? fun y _ => CardEffect.pay_of_not (h x.2) y)

theorem payAll_answer (source : String) (r : Records) :
    payAll g e effects (r.changePlayer g p (·.answer source)) =
      (payAll g e effects r).changePlayer g p (·.answer source) := by
  induction effects generalizing r with
  | nil => rfl
  | cons x rest ih =>
    have hpay (y : Player) : (x.2.pay g e y).id = y.id := x.2.pay_id g e y
    refine Eq.trans (congrArg (payAll g e rest) ?_) (ih (r.changePlayer g x.1 (x.2.pay g e)))
    by_cases hx : x.1 = p
    · subst hx
      dsimp only
      rw [changePlayer_changePlayer (h := (·.answer source)) fun _ hy => hy,
        changePlayer_changePlayer fun y hy => (hpay y).trans hy]
      exact congrArg (r.changePlayer g x.1) (funext fun y => x.2.pay_answer g e source y)
    · exact changePlayer_comm hx hpay fun _ => rfl

theorem player?_payAll (p : PlayerId) (r : Records) : (payAll g e effects r).player? g p =
    (r.player? g p).map fun x =>
      ((effects.filter (·.1 == p)).map (·.2)).foldl (fun x effect => effect.pay g e x) x := by
  induction effects generalizing r with
  | nil => simp [payAll]
  | cons x rest ih =>
    have hid (y : Player) (hy : y.id = x.1) : (x.2.pay g e y).id = x.1 := (x.2.pay_id g e y).trans hy
    refine (ih (r.changePlayer g x.1 (x.2.pay g e))).trans ?_
    by_cases hx : x.1 = p
    · subst hx
      rw [player?_changePlayer hid, Option.map_map]
      simp [Function.comp_def]
    · have hne : (x.1 == p) = false := by simpa using hx
      rw [player?_changePlayer_of_ne (Ne.symm hx) hid, List.filter_cons_of_neg (by simp [hne])]

theorem games_payAll (r : Records) : (payAll g e effects r).games = r.games := by
  induction effects generalizing r with
  | nil => rfl
  | cons x rest ih =>
    refine (ih _).trans ?_
    dsimp only [changePlayer]
    split <;> rfl

theorem roster_payAll {g' : GameId} (hg : g' ≠ g) (r : Records) :
    (payAll g e effects r).roster g' = r.roster g' := by
  induction effects generalizing r with
  | nil => rfl
  | cons x rest ih => exact (ih _).trans ((roster_changePlayer g').trans (if_neg hg))

theorem ids_payAll (r : Records) :
    ((payAll g e effects r).roster g).map (·.id) = (r.roster g).map (·.id) := by
  induction effects generalizing r with
  | nil => rfl
  | cons x rest ih =>
    exact (ih _).trans (ids_changePlayer fun y hy => (x.2.pay_id g e y).trans hy)

end Records

theorem Player.earned_foldl (g : GameId) (e : Event) (effects : List CardEffect) (x : Player) :
    let y := effects.foldl (fun x effect => effect.pay g e x) x
    x.Earned g e effects y ∧ y = x.withFunds y := by
  induction effects generalizing x with
  | nil => exact ⟨.refl g e x, rfl⟩
  | cons effect rest ih =>
    obtain ⟨hearned, hfunds⟩ := ih (effect.pay g e x)
    refine ⟨(effect.pay_earned g e x).trans (effect.pay_id g e x) hearned, hfunds.trans ?_⟩
    exact congrArg (fun z => z.withFunds (rest.foldl (fun x effect => effect.pay g e x) (effect.pay g e x)))
      (effect.pay_funds g e x)

/-- The world when its recorder has heard an event. -/
def World.hearing (w : World) (e : Event) : World :=
  { w with session := { w.session with heard := w.session.heard ++ [e] } }

/-- The second world is the first with what these effects pay, and may listen on another bus. -/
structure World.Rewards (e : Event) (effects : List (PlayerId × CardEffect)) (u v : World) : Prop where
  session : v.session = { u.session with bus := v.session.bus }
  decks : v.store.decks = u.store.decks
  records : v.records = u.records.payAll u.game e effects
  reliable : u.store.Reliable ∧ v.store.Reliable
  /-- Where the event can concern no effect at all, not even a call was made. -/
  idle : (∀ effect : CardEffect, effect.firesOn u.game e = false) → v.store = u.store

namespace World.Rewards

variable {e : Event} {effects : List (PlayerId × CardEffect)} {u v u' v' : World}

theorem game (h : Rewards e effects u v) : v.game = u.game := by
  show v.session.game = u.session.game
  rw [h.session]

theorem player?_isSome (h : Rewards e effects u v) (p : PlayerId) :
    (v.player? p).isSome = (u.player? p).isSome := by
  show (v.records.player? v.game p).isSome = _
  rw [h.game, h.records, Records.player?_payAll, Option.isSome_map]
  rfl

theorem pay (h : Rewards e effects u v) {owner : PlayerId} {effect : CardEffect}
    (hv : v.Paid e owner effect v') : Rewards e (effects ++ [(owner, effect)]) u v' where
  session := by
    rw [hv.becomes.session]
    exact h.session
  decks := hv.becomes.decks.trans h.decks
  records := by
    rw [hv.becomes.records, h.game, h.records, Records.payAll_append]
    rfl
  reliable := ⟨h.reliable.1, hv.reliable⟩
  idle hidle := by
    rw [hv.idle (h.game ▸ hidle effect)]
    exact h.idle hidle

theorem answer (h : Rewards e effects u v) {p : PlayerId} {source : String}
    (hu : u'.store.Reliable) (hbu : u.Becomes (u.records.changePlayer u.game p (·.answer source)) u')
    (hv : v'.store.Reliable) (hbv : v.Becomes (v.records.changePlayer v.game p (·.answer source)) v')
    (hfires : ¬ ∀ effect : CardEffect, effect.firesOn u.game e = false) : Rewards e effects u' v' where
  session := by
    rw [hbv.session, hbu.session]
    exact h.session
  decks := by rw [hbv.decks, hbu.decks, h.decks]
  records := by
    rw [hbv.records, hbu.records, hbu.game, h.game, h.records, Records.payAll_answer]
  reliable := ⟨hu, hv⟩
  idle hidle := absurd (hbu.game ▸ hidle) hfires

theorem hear (h : Rewards e effects u v) (e' : Event) : Rewards e effects (u.hearing e') (v.hearing e') where
  session := by
    show { v.session with heard := v.session.heard ++ [e'] } = _
    rw [h.session]
    rfl
  decks := h.decks
  records := h.records
  reliable := h.reliable
  idle := h.idle

end World.Rewards

namespace Engine

open World (Rewards SameFunds)

variable {book : Rulebook} {depth : Nat} {e : Event} {effects : List (PlayerId × CardEffect)}
  {s t : Subscription Listener} {w u v : World}

theorem watchForced_rewards (catalog : Catalog) (h : Rewards e effects u v) :
    (watchForced catalog e u).1 = (watchForced catalog e v).1 ∧
      Rewards e effects (watchForced catalog e u).2 (watchForced catalog e v).2 := by
  have hu : (watchForced catalog e u).2.session = u.session := (watchForced_blind catalog e).within u
  have hv : (watchForced catalog e v).2.session = v.session := (watchForced_blind catalog e).within v
  -- Where no effect can fire the worlds have one store, whatever the event does to the first actions;
  -- where one can, the only thing the watcher ever does is to answer a selection.
  by_cases hidle : ∀ effect : CardEffect, effect.firesOn u.game e = false
  · obtain ⟨hr, hs, -⟩ := (watchForced_blind catalog e).alike u v ⟨(h.idle hidle).symm, h.game.symm⟩
    have hreliable := ((watchForced_apart (g := u.game) catalog e).alike u u
      ⟨rfl, rfl, rfl, rfl, rfl, h.reliable.1, h.reliable.1⟩).2.store.reliable.1
    refine ⟨hr, ?_, congrArg Store.decks hs.symm, ?_, ⟨hreliable, hs ▸ hreliable⟩, fun _ => hs.symm⟩
    · rw [hu, hv]
      exact h.session
    · rw [Records.payAll_idle (fun effect => by rw [World.game, hu]; exact hidle effect)]
      exact congrArg Store.records hs.symm
  · obtain ⟨effect, hfires⟩ := not_forall.mp hidle
    have hfires : effect.firesOn u.game e = true := by simpa using hfires
    cases ha : e.answers? with
    | none =>
      rw [watchForced_of_unanswered hfires ha catalog,
        watchForced_of_unanswered (h.game ▸ hfires : effect.firesOn v.game e = true) ha catalog]
      exact ⟨rfl, h⟩
    | some answer =>
      obtain ⟨p, source⟩ := answer
      have hg := CardEffect.game_of_firesOn hfires
      rw [watchForced_of_answers ha hg, watchForced_of_answers ha (hg.trans h.game.symm)]
      obtain ⟨u', hu', hbu, hcu⟩ := completeForced_of_reliable h.reliable.1 p source
      obtain ⟨v', hv', hbv, hcv⟩ := completeForced_of_reliable h.reliable.2 p source
      have hthere := h.player?_isSome p
      rw [hcu, hcv, h.game]
      refine ⟨?_, h.answer hu' hbu hv' hbv hidle⟩
      cases hpu : u.player? p <;> cases hpv : v.player? p <;> simp_all

theorem takeTurn_of_ok (h : s.handler.react book e w = (.ok [], v)) :
    takeTurn book depth e s w = (.ok true, v) := by
  have houtcome : outcome (s.handler.react book e) w = (.ok (.ok []), v) := by simp [outcome, h]
  exact Steps.bind_apply_ok houtcome

theorem takeTurn_of_refused {refusal : Refusal} {restored : Bool}
    (h : s.handler.react book e w = (.error (.refused refusal restored), v)) :
    takeTurn book depth e s w = (.ok false, v) := by
  have houtcome : outcome (s.handler.react book e) w = (.ok (.error refusal), v) := by
    simp [outcome, h]
  exact Steps.bind_apply_ok houtcome

theorem takeTurn_effect (book : Rulebook) (depth : Nat) {owner : PlayerId} {effect : CardEffect}
    (h : Rewards e effects u v) (hs : s.handler.effect? = some (owner, effect))
    (hsteps : stepsOf effect.behavior.outputs = []) :
    ∃ v', takeTurn book depth e s v =
        (.ok (effect.deals u.game owner e (u.player? owner).isSome), v') ∧
      Rewards e (effects ++ [(owner, effect)]) u v' ∧ v'.session = v.session := by
  have hhandler : s.handler = .effect owner effect := by
    cases hl : s.handler <;> rw [hl] at hs <;> cases hs
    rfl
  obtain ⟨r, v', hreact, hpaid, hr⟩ := effect.react_pays h.reliable.2 hsteps book.rules owner e
  rw [h.game, h.player?_isSome] at hr
  have hreact : s.handler.react book e v = (r, v') := by rw [hhandler]; exact hreact
  refine ⟨v', ?_, h.pay hpaid, hpaid.becomes.session⟩
  split at hr
  · next hdeals =>
    rw [hdeals]
    exact takeTurn_of_ok (hr ▸ hreact)
  · next hdeals =>
    obtain ⟨refusal, hr⟩ := hr
    rw [Bool.eq_false_iff.mpr hdeals]
    exact takeTurn_of_refused (hr ▸ hreact)

theorem takeTurn_recorder (hs : s.handler = .recorder) :
    takeTurn book depth e s w = (.ok true, w.hearing e) :=
  takeTurn_of_ok (by rw [hs]; rfl)

theorem takeTurn_forcedAction (hs : s.handler = .forcedAction) :
    takeTurn book depth e s w =
      (.ok (watchForced book.catalog e w).1.isOk, (watchForced book.catalog e w).2) := by
  rcases hw : watchForced book.catalog e w with ⟨stop | _, v⟩
  · have hreact : s.handler.react book e w = (.error stop, v) := by
      rw [hs]
      exact Steps.bind_apply_error hw
    have hrefused := watchForced_stops book.catalog e w stop v hw
    cases stop with
    | refused refusal restored => exact takeTurn_of_refused hreact
    | brokenRange | tooDeep => exact hrefused.elim
  · refine takeTurn_of_ok ?_
    rw [hs]
    exact Steps.bind_apply_ok hw

theorem takeTurn_other (book : Rulebook) (depth : Nat) (h : Rewards e effects u v)
    (hs : s.handler.effect? = none) (ht : t.handler = s.handler) :
    ∃ b u' v', takeTurn book depth e t u = (.ok b, u') ∧ takeTurn book depth e s v = (.ok b, v') ∧
      Rewards e effects u' v' ∧ SameFunds u u' ∧ u'.session.bus = u.session.bus ∧
        v'.session.bus = v.session.bus := by
  cases hl : s.handler with
  | effect owner effect => rw [hl] at hs; cases hs
  | recorder =>
    exact ⟨true, _, _, takeTurn_recorder (ht.trans hl), takeTurn_recorder hl, h.hear e,
      ⟨rfl, fun _ => rfl⟩, rfl, rfl⟩
  | forcedAction =>
    obtain ⟨hresult, hafter⟩ := watchForced_rewards book.catalog h
    have hturn : takeTurn book depth e s v = _ := takeTurn_forcedAction hl
    rw [← hresult] at hturn
    have hbus (w : World) : (watchForced book.catalog e w).2.session.bus = w.session.bus :=
      congrArg Session.bus ((watchForced_blind book.catalog e).within w)
    exact ⟨_, _, _, takeTurn_forcedAction (ht.trans hl), hturn, hafter,
      watchForced_sameFunds book.catalog e u, hbus u, hbus v⟩

/-- Whether the effect of this player deals with the event. -/
def deals (w : World) (e : Event) (x : PlayerId × CardEffect) : Bool :=
  x.2.deals w.game x.1 e (w.player? x.1).isSome

theorem deals_of_sameFunds (h : SameFunds w v) : deals v e = deals w e := by
  funext x
  rw [deals, h.game, h.isSome]
  rfl

theorem deliver_of_live {call : Subscription Listener → Engine Bool}
    {rest : List (Subscription Listener)} {x : World} {b : Bool} {n : Nat}
    (hlive : w.session.bus.isRegistered s.id = true) (hcall : call s w = (.ok b, v))
    (hrest : Bus.deliver isLive call rest v = (.ok n, x)) :
    Bus.deliver isLive call (s :: rest) w = (.ok (if b then n + 1 else n), x) := by
  rw [Bus.deliver_cons, Steps.bind_apply_ok (isLive_of_isRegistered hlive), if_pos rfl,
    Steps.bind_apply_ok hcall, Steps.bind_apply_ok hrest]
  rfl

theorem exists_cons_of_others {subs rest : List (Subscription Listener)}
    (hs : s.handler.effect? = none)
    (hrest : rest.map (·.handler) = ((s :: subs).map (·.handler)).filter (·.effect?.isNone)) :
    ∃ t others, rest = t :: others ∧ t.handler = s.handler ∧
      others.map (·.handler) = (subs.map (·.handler)).filter (·.effect?.isNone) := by
  have hcons : rest.map (·.handler) =
      s.handler :: (subs.map (·.handler)).filter (·.effect?.isNone) := by simpa [hs] using hrest
  exact List.map_eq_cons_iff.mp hcons

theorem deliver_rewards (book : Rulebook) (depth : Nat) {subs rest : List (Subscription Listener)}
    (hrest : rest.map (·.handler) = (subs.map (·.handler)).filter (·.effect?.isNone))
    (hsteps : ∀ x ∈ subs.filterMap (·.handler.effect?), stepsOf x.2.behavior.outputs = [])
    (hlive : ∀ s ∈ subs, v.session.bus.isRegistered s.id = true)
    (hlive' : ∀ s ∈ rest, u.session.bus.isRegistered s.id = true) (h : Rewards e effects u v) :
    ∃ m u' v', Bus.deliver isLive (takeTurn book depth e) rest u = (.ok m, u') ∧
      Bus.deliver isLive (takeTurn book depth e) subs v =
        (.ok (m + (subs.filterMap (·.handler.effect?)).countP (deals u e)), v') ∧
      Rewards e (effects ++ subs.filterMap (·.handler.effect?)) u' v' ∧ SameFunds u u' ∧
        v'.session.bus = v.session.bus := by
  -- No turn changes either bus, so every listener is still live when the turn comes to it.
  induction subs generalizing rest u v effects with
  | nil =>
    obtain rfl : rest = [] := by simpa using hrest
    exact ⟨0, u, v, rfl, rfl, by simpa using h, Std.Refl.refl u, rfl⟩
  | cons s subs ih =>
    obtain ⟨hs, hsubs⟩ := List.forall_mem_cons.mp hlive
    cases hl : s.handler.effect? with
    | some x =>
      obtain ⟨owner, effect⟩ := x
      have hfilter : (s :: subs).filterMap (·.handler.effect?) =
          (owner, effect) :: subs.filterMap (·.handler.effect?) := List.filterMap_cons_some hl
      rw [hfilter] at hsteps ⊢
      obtain ⟨heffect, hmore⟩ := List.forall_mem_cons.mp hsteps
      obtain ⟨v₁, hturn, h₁, hsession⟩ := takeTurn_effect book depth h hl heffect
      have hrest : rest.map (·.handler) = (subs.map (·.handler)).filter (·.effect?.isNone) := by
        simpa [hl] using hrest
      obtain ⟨m, u', v', hu, hv, h₂, hfunds, hbus⟩ := ih hrest hmore (by rw [hsession]; exact hsubs)
        hlive' h₁
      refine ⟨m, u', v', hu, ?_, by simpa using h₂, hfunds, hbus.trans (congrArg Session.bus hsession)⟩
      rw [deliver_of_live hs hturn hv, List.countP_cons, deals]
      cases effect.deals u.game owner e (u.player? owner).isSome <;> rfl
    | none =>
      have hfilter : (s :: subs).filterMap (·.handler.effect?) =
          subs.filterMap (·.handler.effect?) := List.filterMap_cons_none hl
      rw [hfilter] at hsteps ⊢
      obtain ⟨t, rest, rfl, ht, hrest⟩ := exists_cons_of_others hl hrest
      obtain ⟨htlive, hrestlive⟩ := List.forall_mem_cons.mp hlive'
      obtain ⟨b, u₁, v₁, hturnu, hturnv, h₁, hfunds₁, hbusu, hbusv⟩ :=
        takeTurn_other book depth h hl ht
      obtain ⟨m, u', v', hu, hv, h₂, hfunds, hbus⟩ := ih hrest hsteps (by rw [hbusv]; exact hsubs)
        (by rw [hbusu]; exact hrestlive) h₁
      refine ⟨_, u', v', deliver_of_live htlive hturnu hu, ?_, h₂, Trans.trans hfunds₁ hfunds,
        hbus.trans hbusv⟩
      rw [deliver_of_live hs hturnv hv, deals_of_sameFunds hfunds₁]
      cases b
      · rfl
      · exact congrArg (fun n => (Except.ok n, v')) (Nat.add_right_comm ..)

end Engine

/-- What is left of an event when it has been published on this bus: the second world is what the event
makes of the first where no effect hears of it, and the third has what these effects pay on top. -/
structure World.Rewarded (e : Event) (effects : List (PlayerId × CardEffect)) (b : Bus Listener)
    (w u v : World) : Prop where
  session : v.session = { u.session with bus := b }
  decks : v.store.decks = u.store.decks
  games : v.store.games = u.store.games
  elsewhere : ∀ g, g ≠ w.game → v.store.roster g = u.store.roster g
  ids : (v.store.roster w.game).map (·.id) = (u.store.roster w.game).map (·.id)
  players : ∀ p x, w.player? p = some x → ∃ z y, u.player? p = some z ∧ v.player? p = some y ∧
    x.Earned w.game e ((effects.filter (·.1 == p)).map (·.2)) y ∧ y = z.withFunds y

theorem World.Rewards.rewarded {e : Event} {effects : List (PlayerId × CardEffect)} {w u v : World}
    (h : Rewards e effects u v) (hfunds : SameFunds w u) :
    Rewarded e effects v.session.bus w u v where
  session := h.session
  decks := h.decks
  games := (congrArg Records.games h.records).trans (Records.games_payAll _)
  elsewhere g hg := by
    show v.records.roster g = _
    rw [h.records, Records.roster_payAll (hfunds.game ▸ hg)]
    rfl
  ids := by
    show (v.records.roster w.game).map _ = _
    rw [h.records, ← hfunds.game, Records.ids_payAll]
    rfl
  players p x hx := by
    obtain ⟨z, hz⟩ : ∃ z, u.player? p = some z :=
      Option.isSome_iff_exists.mp ((hfunds.isSome p).trans (by rw [hx]; rfl))
    have hid : z.id = x.id := (World.player?_id hz).trans (World.player?_id hx).symm
    have hsame : z.funds = x.funds := by simpa [hz, hx] using hfunds.funds p
    obtain ⟨hearned, hrest⟩ := z.earned_foldl w.game e ((effects.filter (·.1 == p)).map (·.2))
    refine ⟨z, _, hz, ?_, hearned.of_funds hid (Player.withFunds_of_funds hsame), hrest⟩
    show v.records.player? v.game p = _
    rw [h.game, h.records, Records.player?_payAll, show u.records.player? u.game p = some z from hz,
      hfunds.game]
    rfl

theorem World.Rewarded.perm {e : Event} {effects more : List (PlayerId × CardEffect)} {b : Bus Listener}
    {w u v : World} (h : Rewarded e effects b w u v) (hp : effects.Perm more) :
    Rewarded e more b w u v where
  __ := h
  players p x hx := by
    obtain ⟨z, y, hz, hy, hearned, hrest⟩ := h.players p x hx
    exact ⟨z, y, hz, hy, hearned.perm ((hp.filter _).map _), hrest⟩

namespace Engine

/-- Every player gets the sum of what the player's own effects grant, and nothing else changes but by
what the event does without them, whatever the order in which the effects were subscribed. -/
theorem publishWithin_rewards (book : Rulebook) (depth : Nat) (e : Event) {w : World}
    (hw : w.store.Reliable)
    (hsteps : ∀ x ∈ w.session.bus.effects e.kind, stepsOf x.2.behavior.outputs = []) :
    ∃ m u, publishWithin book (depth + 1) e (w.onBus w.session.bus.withoutEffects) = (.ok m, u) ∧
      (w.session.bus.others e.kind = [] → u = w.onBus w.session.bus.withoutEffects) ∧
      ∀ b : Bus Listener, (b.effects e.kind).Perm (w.session.bus.effects e.kind) →
        b.others e.kind = w.session.bus.others e.kind →
        ∃ v, publishWithin book (depth + 1) e (w.onBus b) =
            (.ok (m + (w.session.bus.effects e.kind).countP (deals w e)), v) ∧
          World.Rewarded e (w.session.bus.effects e.kind) b w u v := by
  let silent := w.session.bus.withoutEffects
  let start := w.onBus silent
  have hrun (b : Bus Listener) (hp : (b.effects e.kind).Perm (w.session.bus.effects e.kind))
      (ho : b.others e.kind = w.session.bus.others e.kind) :
      ∃ m u v, publishWithin book (depth + 1) e start = (.ok m, u) ∧
        publishWithin book (depth + 1) e (w.onBus b) =
          (.ok (m + (w.session.bus.effects e.kind).countP (deals w e)), v) ∧
        World.Rewarded e (w.session.bus.effects e.kind) b w u v := by
    have hstart : World.Rewards e [] start (w.onBus b) :=
      ⟨rfl, rfl, rfl, ⟨hw, hw⟩, fun _ => rfl⟩
    have hothers : (silent.listeners e.kind).map (·.handler) =
        ((b.listeners e.kind).map (·.handler)).filter (·.effect?.isNone) :=
      Bus.listeners_withoutEffects.trans ho.symm
    obtain ⟨m, u, v, hu, hv, hrewards, hfunds, hbus⟩ := deliver_rewards book depth hothers
      (fun x hx => hsteps x (hp.mem_iff.mp hx)) (fun _ => Bus.isRegistered_of_listeners)
      (fun _ => Bus.isRegistered_of_listeners) hstart
    have hrewarded := (hrewards.rewarded (w := w) ⟨hfunds.game, hfunds.funds⟩).perm hp
    have hcount : (b.effects e.kind).countP (deals start e) =
        (w.session.bus.effects e.kind).countP (deals w e) := hp.countP_eq _
    have hbus : v.session.bus = b := hbus
    exact ⟨m, u, v, hu, hcount ▸ hv, hbus ▸ hrewarded⟩
  obtain ⟨m, u, -, hu, -, -⟩ := hrun w.session.bus (.refl _) rfl
  refine ⟨m, u, hu, fun ho => ?_, fun b hp ho => ?_⟩
  · have hnone : silent.listeners e.kind = [] :=
      List.map_eq_nil_iff.mp (Bus.listeners_withoutEffects.trans ho)
    have hpublish : publishWithin book (depth + 1) e start = (.ok 0, start) := by
      show Bus.deliver isLive (takeTurn book depth e) (silent.listeners e.kind) start = _
      rw [hnone]
      rfl
    exact (congrArg Prod.snd (hpublish.symm.trans hu)).symm
  · obtain ⟨m', u', v, hu', hv, hrewarded⟩ := hrun b hp ho
    cases hu.symm.trans hu'
    exact ⟨v, hv, hrewarded⟩

/-- What somebody's card does when a condition is met. -/
def listening (id : SubscriptionId) (owner : PlayerId) (card : CardId) (condition : Condition)
    (outputs : List LineItem) : Subscription Listener where
  id := id
  kind := .tilePlaced
  handler := .effect owner { card, name := card, index := 0, behavior := .passive condition outputs }

/-- Two players with effects that hear of tiles. The rovers pay for one's own cities only, and the vault
has tokens for a target that cannot hold any. -/
def colonists : World where
  store := {
    games := [("game", { id := "game" })]
    rosters := [("game", [Player.named "north", Player.named "south"])] }
  session := {
    game := "game"
    bus := {
      issued := 6
      subscriptions := [
        listening 1 "north" "rover" { kind := .cityPlaced }
          [{ kind := .resource .credits, amount := 2, target := some .selfPlayer }],
        listening 2 "south" "rover" { kind := .cityPlaced }
          [{ kind := .resource .credits, amount := 2, target := some .selfPlayer }],
        { id := 3, kind := .tilePlaced, handler := .forcedAction },
        listening 4 "north" "kelp" { kind := .tilePlaced }
          [{ kind := .cardStorage .microbes, amount := 1 },
            { kind := .resource .plants, amount := -1, target := some .anyPlayer }],
        listening 5 "south" "vault" { kind := .tilePlaced }
          [{ kind := .resource .credits, amount := 5 },
            { kind := .cardStorage .animals, amount := 1, target := some .opponent }],
        listening 6 "north" "rover" { kind := .tilePlaced } [{ kind := .resource .credits, amount := 1 }]] } }

def cityBuilt : Event :=
  .tilePlaced { game := "game", player := "north", tile := .city, coord := ⟨0, 0, 0⟩, source := none }

def colonyRules : Rulebook := { catalog := ⟨[]⟩, rules := {}, depth := 8 }

theorem publishWithin_rewards_city :
    let effects := colonists.session.bus.effects cityBuilt.kind
    colonists.store.Reliable ∧ (∀ x ∈ effects, stepsOf x.2.behavior.outputs = []) ∧
      ∃ m u v, publishWithin colonyRules 1 cityBuilt
          (colonists.onBus colonists.session.bus.withoutEffects) = (.ok m, u) ∧
        publishWithin colonyRules 1 cityBuilt colonists = (.ok (m + 4), v) ∧
        World.Rewarded cityBuilt effects colonists.session.bus colonists u v := by
  have hw : colonists.store.Reliable := fun c o ho => by cases ho
  have hsteps : ∀ x ∈ colonists.session.bus.effects cityBuilt.kind,
      stepsOf x.2.behavior.outputs = [] := by decide +kernel
  obtain ⟨m, u, hu, -, hbus⟩ := publishWithin_rewards colonyRules 0 cityBuilt hw hsteps
  obtain ⟨v, hv, hrewarded⟩ := hbus colonists.session.bus (.refl _) rfl
  have hcount : (colonists.session.bus.effects cityBuilt.kind).countP (deals colonists cityBuilt) = 4 := by
    decide +kernel
  exact ⟨hw, hsteps, m, u, v, hu, hcount ▸ hv, hrewarded⟩

example : (publishWithin colonyRules 1 cityBuilt colonists).2.store.rosters = [("game",
    [{ Player.named "north" with resources := { credits := 3 }, storage := [("kelp", 1)] },
      Player.named "south"])] := by decide +kernel

end Engine

end MarsRules
