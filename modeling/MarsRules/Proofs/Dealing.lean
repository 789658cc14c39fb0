import MarsRules.Proofs.Commits

/-! What a request does to the desks (`Request.run_dealt`): nothing, or what it is for, on the desk of
one player, unless a write fails that cannot be put back. -/

namespace MarsRules

open Steps (Keeps)

/-- The forced actions hear of something. -/
def Session.Heeds (s : Session) : Prop := ∃ sub ∈ s.bus.subscriptions, sub.handler = .forcedAction

/-- The forced actions hear of selections that are resolved. -/
def Session.Watching (s : Session) : Prop :=
  ∀ kind ∈ [EventKind.drawConfirmed, .tilePlaced], ∃ sub ∈ s.bus.listeners kind,
    sub.handler = .forcedAction

theorem Session.Watching.heeds {s : Session} (h : s.Watching) : s.Heeds := by
  obtain ⟨sub, hsub, hforced⟩ := h .tilePlaced (by simp)
  exact ⟨sub, (List.mem_filter.mp hsub).1, hforced⟩

/-- Whatever is resolved here is answered: no call can fail, and the forced actions hear of it. -/
structure World.Attended (w : World) : Prop where
  reliable : w.store.Reliable
  watching : w.session.Watching

theorem World.Attended.later {w v : World} (h : w.Attended) (hbus : v.session.bus = w.session.bus)
    (outages : ∀ c, v.store.MayFail c → w.store.MayFail c) : v.Attended where
  reliable := h.reliable.later outages
  watching kind hkind := hbus ▸ h.watching kind hkind

/-- What becomes of a first action when a selection of this source is resolved here. -/
def World.Hears (w : World) (source : String) (x y : Option ForcedAction) : Prop :=
  w.session.Heeds ∧ y = x.map (·.answered source) ∨ ¬ w.Attended ∧ y = x

theorem World.Hears.earlier {w v : World} {source : String} {x y : Option ForcedAction}
    (h : v.Hears source x y) (hbus : v.session.bus = w.session.bus)
    (outages : ∀ c, v.store.MayFail c → w.store.MayFail c) : w.Hears source x y := by
  refine h.imp (And.imp_left fun hv => ?_) (And.imp_left (mt fun hw => hw.later hbus outages))
  unfold Session.Heeds at hv
  rwa [hbus] at hv

/-- What a request that is carried out does on the desk of its player. -/
inductive Desk.Step (book : Rulebook) (w : World) (d : Desk) :
    Request → List CardId → Desk → Prop
  | choose {id : CardId} {card : Card} {drawn : List CardId} {d' : Desk} (undecided : d.corporation = none)
      (found : book.catalog.find? id = some card)
      (grows : Grows { d with corporation := some card.id, forced := card.forcedAction? <|> d.forced }
        drawn d') :
      Step book w d (.call (.act d.id (.selectCorporation id))) drawn d'
  | play {r : PlayRequest} {card : Card} {drawn : List CardId} {d' : Desk}
      (found : book.catalog.find? r.card = some card) (held : card.id ∈ d.hand)
      (grows : Grows { d with hand := d.hand.filter (· ≠ card.id), played := d.played ++ [card.id] }
        drawn d') :
      Step book w d (.call (.act d.id (.play r))) drawn d'
  | use {card : CardId} {index : Nat} {choice : Option Nat} {target : Option CardId}
      {drawn : List CardId} {d' : Desk} (grows : d.Grows drawn d') :
      Step book w d (.call (.act d.id (.useAction card index choice target))) drawn d'
  | place {c : Coord} {offer : TileOffer} {forced : Option ForcedAction} {tileOffer : Option TileOffer}
      {queue : Option TileQueue} (offered : d.tileOffer = some offer) (listed : c ∈ offer.hexes)
      (heard : w.Hears offer.source d.forced forced) :
      Step book w d (.call (.act d.id (.place c))) [] { d with forced, tileOffer, queue }
  | keep {picked : List CardId} {offer : DrawOffer} {forced : Option ForcedAction}
      (offered : d.drawOffer = some offer) (once : picked.Nodup) (drawn : picked ⊆ offer.cards)
      (heard : w.Hears offer.source d.forced forced) :
      Step book w d (.call (.act d.id (.confirmDraw picked))) []
        { d with forced, hand := d.hand ++ picked, drawOffer := none }
  | trigger {request : Request} {f : ForcedAction} {corporation : Card} {item : LineItem}
      {drawn : List CardId} {d' : Desk}
      (asked : request = .trigger d.id ∨ ∃ phase, request = .call (.setPhase phase))
      (awaits : d.Awaits book.catalog f corporation item)
      (opens : d.Opens w.deck corporation.id item drawn d') :
      Step book w d request drawn { d' with forced := some (f.trigger corporation.id) }

namespace World

/-- What becomes of the desks when a request has ended like this. -/
inductive Dealt (book : Rulebook) (request : Request) (w : World) : Except Stop Unit → World → Prop
  | idle {result : Except Stop Unit} {v : World} (same : SameDesks w v) : Dealt book request w result v
  | step {v : World} {d d' : Desk} {drawn : List CardId} (deals : Deals w v d drawn d')
      (step : d.Step book w request drawn d') : Dealt book request w (.ok ()) v
  | spoilt {result : Except Stop Unit} {v : World} (h : Spoilt w v) : Dealt book request w result v

section Desks

variable {w v u : World} {d d' : Desk} {drawn : List CardId}

theorem changeFirst_desk (h : w.desk? d.id = some d) :
    changeFirst (·.id == d.id) (fun _ => d) w.desks = w.desks :=
  (changeFirst_congr fun _ hx => Option.some.inj (h.symm.trans hx)).trans (changeFirst_id _)

theorem SameDesks.deals (h : SameDesks w v) (hd : w.desk? d.id = some d) : Deals w v d [] d :=
  ⟨h.game, hd, rfl, h.desks.trans (changeFirst_desk hd).symm, h.deck.symm, h.outages⟩

theorem Deals.sameDesks (h : Deals w v d [] d) : SameDesks w v :=
  ⟨h.game, h.desks.trans (changeFirst_desk h.there), h.deck.symm, h.outages⟩

theorem Restored.dealt (h : Restored w v) (hs : Spares w v) : SameDesks w v ∨ Spoilt w v := by
  by_cases hfail : w.store.MayFail (Write.drawOffer : Call)
  · refine .inr ⟨h.game, ⟨_, hfail⟩, hs.outages, fun p => .inl ?_⟩
    have hdesks : v.desks = w.desks := by
      rw [desks, h.game, h.records]
      rfl
    rw [forced?, desk?, hdesks]
    rfl
  · exact .inl (h.sameDesks ⟨hs.outages, fun _ => hs.decks hfail⟩)

theorem Deals.dealt (h : Deals w v d drawn d') (hf : d'.forced = d.forced)
    (h' : SameDesks v u ∨ Spoilt v u) : Deals w u d drawn d' ∨ Spoilt w u := by
  rcases h' with h' | h'
  · exact .inl (h.before h')
  · exact .inr (h'.after h.game h.outages (h.starts (.inl hf)))

end Desks

theorem Dealt.desk? {book : Rulebook} {request : Request} {w v : World} {result : Except Stop Unit}
    (h : Dealt book request w result v) (p : PlayerId) : v.desk? p = w.desk? p ∨ Spoilt w v ∨
      result = .ok () ∧ ∃ d drawn d', d.id = p ∧ w.desk? p = some d ∧ v.desk? p = some d' ∧
        d.Step book w request drawn d' := by
  cases h with
  | idle same => exact .inl (same.desk? p)
  | @step _ d d' drawn deals step =>
    by_cases hp : p = d.id
    · subst hp
      exact .inr (.inr ⟨rfl, d, drawn, d', rfl, deals.there, (deals.desk? _).trans (if_pos rfl), step⟩)
    · exact .inl ((deals.desk? p).trans (if_neg hp))
  | spoilt h => exact .inr (.inl h)

end World

namespace Engine

open World (SameDesks Spoilt)

variable {book : Rulebook} {catalog : Catalog} {p : PlayerId} {id : CardId} {w v : World}
  {events : List Event}

/-- A choice that is refused has changed nothing; one that is made has come to its write, and whoever makes
it has no corporation. -/
theorem chooseCorporation_writes {result : Except Stop Card}
    (h : chooseCorporation catalog p id w = (result, v)) :
    ((∃ stop, result = .error stop) ∧ World.Alike w v ∧ World.Spends False w v) ∨
    ∃ card x u, result = .ok card ∧ catalog.find? id = some card ∧ w.player? p = some x ∧
      x.corporation = none ∧ World.Alike w u ∧ World.Spends False w u ∧
      update p (.corporation (some card.id)) u = (.ok (), v) := by
  have hlook {α : Type} {x : Engine α} (ha : Keeps World.Alike x) (hs : Keeps (World.Spends False) x)
      {u t : World} {r : Except Stop α} (hu : World.Alike w u ∧ World.Spends False w u)
      (hx : x u = (r, t)) : World.Alike w t ∧ World.Spends False w t :=
    ⟨Trans.trans hu.1 (ha.apply hx), Trans.trans hu.2 (hs.apply hx)⟩
  have hcheck {y : Except Refusal Unit} {u t : World} {r : Except Stop Unit} :=
    hlook (u := u) (t := t) (r := r) (ofExcept_alike y) (ofExcept_spends y)
  have hfound {u : World} {r : Except Stop Card} (hx : findCard catalog id w = (r, u)) :=
    hlook (findCard_alike _ _) (findCard_spends _ _) ⟨Std.Refl.refl w, Std.Refl.refl w⟩ hx
  have hread {u t : World} {r : Except Stop Player} :=
    hlook (u := u) (t := t) (r := r) (readPlayer_alike p) (readPlayer_spends p)
  rcases Steps.bind_cases h with ⟨stop, hfind, rfl⟩ | ⟨card, w₁, hfind, h⟩
  · exact .inl ⟨⟨stop, rfl⟩, hfound hfind⟩
  rcases Steps.bind_cases h with ⟨stop, hkind, rfl⟩ | ⟨_, w₂, hkind, h⟩
  · exact .inl ⟨⟨stop, rfl⟩, hcheck (hfound hfind) hkind⟩
  have h₂ := hcheck (hfound hfind) hkind
  rcases Steps.bind_cases h with ⟨stop, hp, rfl⟩ | ⟨x, w₃, hp, h⟩
  · exact .inl ⟨⟨stop, rfl⟩, hread h₂ hp⟩
  have h₃ := hread h₂ hp
  rcases Steps.bind_cases h with ⟨stop, hfree, rfl⟩ | ⟨_, w₄, hfree, h⟩
  · exact .inl ⟨⟨stop, rfl⟩, hcheck h₃ hfree⟩
  obtain ⟨hfree, rfl⟩ := ofExcept_eq_ok.mp hfree
  rcases Steps.bind_cases h with ⟨stop, hwrite, rfl⟩ | ⟨_, w₅, hwrite, h⟩
  · have hspent : World.Spends False w₃ v := (update_spends _ _).apply hwrite
    exact .inl ⟨⟨stop, rfl⟩, Trans.trans h₃.1 (update_error hwrite), Trans.trans h₃.2 hspent⟩
  cases h
  have hnone : x.corporation = none := by
    unfold Player.checkUndecided at hfree
    split at hfree
    · next hnone => exact hnone
    · cases hfree
  exact .inr ⟨card, x, _, rfl, findCard_ok hfind, (h₂.1.player? p).symm.trans (readPlayer_ok hp).1, hnone,
    h₃.1, h₃.2, hwrite⟩

theorem chooseCorporation_cases {result : Except Stop Card}
    (h : chooseCorporation catalog p id w = (result, v)) :
    ((∃ stop, result = .error stop) ∧ w.SameDesks v) ∨
    ∃ d card, d.id = p ∧ d.corporation = none ∧ catalog.find? id = some card ∧ result = .ok card ∧
      w.Deals v d [] { d with corporation := some card.id } := by
  rcases chooseCorporation_writes h with ⟨hstop, ha, hs⟩ | ⟨card, x, u, hok, hfound, hp, hnone, ha, hs, hwrite⟩
  · exact .inl ⟨hstop, (ha.idle hs).toSameDesks⟩
  · exact .inr ⟨x.desk, card, World.player?_id hp, hnone, hfound, hok,
      (update_deals hwrite ((ha.player? p).trans hp)).after (ha.idle hs).toSameDesks⟩

end Engine

namespace Operation

variable {book : Rulebook} {p : PlayerId} {op : Operation} {w v : World}

open World (SameDesks Spoilt)

/-- A corporation that is refused is given back, unless a write failed for which there is no way back. -/
theorem choose_refused_dealt {id : CardId} {e : Refusal}
    (h : (selectCorporation id).commit book p w = (.error (.refused e true), v)) :
    w.SameDesks v ∨ w.Spoilt v := by
  rcases Steps.bind_eq_error.mp h with h | ⟨card, u, hchosen, h⟩
  · rcases Engine.chooseCorporation_cases h with ⟨-, hsame⟩ | ⟨_, _, _, _, _, hok, _⟩
    · exact .inl hsame
    · cases hok
  obtain ⟨d, card', rfl, hnone, hfound, hok, hdeals⟩ :=
    (Engine.chooseCorporation_cases hchosen).resolve_left (by rintro ⟨⟨_, he⟩, _⟩; cases he)
  obtain rfl := Except.ok.inj hok
  obtain ⟨t, hcard, hback⟩ := Engine.orElse_eq_restored h
  obtain ⟨x, hx, hdesk⟩ := World.player?_of_desk? ((hdeals.desk? d.id).trans (if_pos rfl))
  obtain hid : x.id = d.id := World.player?_id hx
  have hspares := Engine.commitCard_spares hcard (World.Reached.start (hid ▸ hx)) hid.symm rfl
  have hrestored := Engine.commitCard_reverts book.rules d.id card none none u e t hcard
  obtain ⟨y, hy⟩ := (Engine.update_ok hback).1
  have hput : t.Deals v y.desk [] { y.desk with corporation := none } := Engine.update_deals hback hy
  rcases hdeals.dealt rfl (hrestored.dealt hspares) with hdeals | hspoilt
  · -- the choice is taken back
    have hy := World.desk?_of_player? hy
    rw [hdeals.desk?, if_pos rfl] at hy
    rw [← Option.some.inj hy] at hput
    have hback : w.Deals v d [] { d with corporation := none } := hdeals.trans hput
    rw [← hnone] at hback
    exact .inl hback.sameDesks
  · exact .inr (hspoilt.before hput.game hput.outages (hput.starts (.inl rfl)))

theorem commit_refused_dealt {e : Refusal} (h : op.commit book p w = (.error (.refused e true), v)) :
    w.SameDesks v ∨ w.Spoilt v := by
  cases op with
  | selectCorporation id => exact choose_refused_dealt h
  | play r => exact (Engine.commitPlay_reverts book p r w e v h).dealt (Engine.commitPlay_spares h)
  | useAction card index choice target =>
    exact (Engine.commitUse_reverts book.rules p card index choice target w e v h).dealt
      (Engine.commitUse_spares h)
  | place c =>
    rcases Steps.bind_eq_error.mp h with h | ⟨_, u, -, h⟩
    · have hspent : World.Spends False w v := (Engine.commitPlacement_spends book.rules p c).apply h
      exact .inl ((Engine.commitPlacement_reverts book.rules p c w e v h).sameDesks hspent)
    · cases h
  | confirmDraw picked =>
    rcases Steps.bind_eq_error.mp h with h | ⟨_, u, -, h⟩
    · rcases Engine.commitDraw_cases h with ⟨-, hleft⟩ | ⟨_, _, _, _, _, _, _, hok⟩
      · exact hleft
      · cases hok
    · cases h

end Operation

namespace Engine

variable {book : Rulebook} {p : PlayerId} {source : String} {w v : World} {d : Desk} {e : Event}
  {before : List Event}

theorem publish_heard {n : Nat} (he : e.answers? = some (p, source))
    (hkind : e.kind ∈ [EventKind.drawConfirmed, .tilePlaced]) (hg : e.game = w.game)
    (hd : w.desk? p = some d) (h : publish book e w = (.ok n, v)) :
    ∃ forced, w.Hears source d.forced forced ∧ w.Deals v d [] { d with forced } := by
  obtain rfl := World.desk?_id hd
  by_cases hheeds : w.session.Heeds
  · have hanswers : w.Answers d.id source v := (publishWithin_answers book book.depth he).apply h
    rcases hanswers.desks with hsame | ⟨d', hid, hdeals⟩
    · refine ⟨d.forced, ?_, hsame.deals hd⟩
      by_cases hw : w.Attended
      · have hv := publishWithin_prompt he hg hw.reliable (hw.watching e.kind hkind) hd h
        rw [hsame.desk?, hd] at hv
        exact .inl ⟨hheeds, congrArg Desk.forced (Option.some.inj hv)⟩
      · exact .inr ⟨hw, rfl⟩
    · have hthere := hdeals.there
      rw [hid, hd] at hthere
      obtain rfl := Option.some.inj hthere
      exact ⟨_, .inl ⟨hheeds, rfl⟩, hdeals⟩
  · have hunheard : ∀ s ∈ w.session.bus.listeners e.kind, s.handler ≠ .forcedAction :=
      fun s hs hforced => hheeds ⟨s, (List.mem_filter.mp hs).1, hforced⟩
    have hsame : w.Idle (publish book e w).2 := publishWithin_unheard book book.depth hunheard
    rw [h] at hsame
    exact ⟨d.forced, .inr ⟨fun hw => hheeds hw.watching.heeds, rfl⟩, hsame.toSameDesks.deals hd⟩

theorem announce_heard (hbefore : ∀ e' ∈ before, e'.Plain) (he : e.answers? = some (p, source))
    (hkind : e.kind ∈ [EventKind.drawConfirmed, .tilePlaced]) (hg : e.game = w.game)
    (hd : w.desk? p = some d) (h : announce book (before ++ [e]) w = (.ok (), v)) :
    ∃ forced, w.Hears source d.forced forced ∧ w.Deals v d [] { d with forced } := by
  have happend : announce book (before ++ [e]) = announce book before >>= fun _ => announce book [e] :=
    List.forM_append
  rw [happend] at h
  obtain ⟨_, u, hu, h⟩ := Steps.bind_eq_ok.mp h
  have hidle : w.Idle u := (announce_idle book hbefore).apply hu
  obtain ⟨_, t, ht, h⟩ := Steps.bind_eq_ok.mp h
  cases h
  obtain ⟨n, t, ht, h⟩ := Steps.bind_eq_ok.mp ht
  cases h
  obtain ⟨forced, hheard, hdeals⟩ :=
    publish_heard he hkind (hg.trans hidle.game.symm) ((hidle.desk? p).trans hd) ht
  exact ⟨forced, hheard.earlier hidle.bus hidle.outages, hdeals.after hidle.toSameDesks⟩

end Engine

theorem Desk.Grows.withForced {d d' : Desk} {drawn : List CardId} (h : d.Grows drawn d')
    (forced : Option ForcedAction) : Grows { d with forced } drawn { d' with forced } where
  id := h.id
  corporation := h.corporation
  hand := h.hand
  played := h.played
  forced := rfl
  tileOffer := h.tileOffer
  toTake := h.toTake
  source := h.source

namespace Operation

open World (SameDesks Spoilt)

variable {book : Rulebook} {p : PlayerId} {op : Operation} {w u v : World} {events : List Event}
  {result : Except Stop Unit}

theorem choose_announced {id : CardId}
    (hcommit : (selectCorporation id).commit book p w = (.ok events, u))
    (hannounced : Engine.announce book events u = (.ok (), v)) :
    ∃ d card drawn d', d.id = p ∧ d.corporation = none ∧ book.catalog.find? id = some card ∧
      w.Deals v d drawn d' ∧ Desk.Grows { d with corporation := some card.id } drawn d' := by
  obtain ⟨card, t, hchosen, hcard⟩ := Steps.bind_eq_ok.mp hcommit
  have hcard := Engine.orElse_eq_ok.mp hcard
  obtain ⟨d, card', rfl, hnone, hfound, hok, hchosen⟩ :=
    (Engine.chooseCorporation_cases hchosen).resolve_left (by rintro ⟨⟨_, he⟩, _⟩; cases he)
  obtain rfl := Except.ok.inj hok
  obtain ⟨e, drawn, e', hid, hdeals, hgrows⟩ := Engine.commitCard_deals hcard
  have hthere := hdeals.there
  rw [hid, hchosen.desk?, if_pos rfl] at hthere
  obtain rfl := Option.some.inj hthere
  have hidle := Engine.announce_idle book (Engine.commitCard_plain hcard)
  exact ⟨d, card, _, e', rfl, hnone, hfound,
    (hchosen.trans hdeals).before (hidle.apply hannounced).toSameDesks, hgrows⟩

theorem announced_of_finished
    (h : (Engine.announce book events >>= fun _ => op.rest book p) u = (result, v))
    (finished : Finished result) :
    ∃ x, Engine.announce book events u = (.ok (), x) ∧ op.rest book p x = (result, v) := by
  rcases Steps.bind_cases h with ⟨stop, hstop, rfl⟩ | ⟨_, x, hannounced, hrest⟩
  · obtain ⟨r, rfl⟩ := finished stop rfl
    exact absurd rfl (Engine.announce_neverRefuses book events u _ v hstop r true)
  · exact ⟨x, hannounced, hrest⟩

theorem choose_cases {id : CardId} (hcommit : (selectCorporation id).commit book p w = (.ok events, u))
    (h : (Engine.announce book events >>= fun _ => (selectCorporation id).rest book p) u = (result, v))
    (finished : Finished result) :
    (result = .ok () ∧ ∃ d drawn d', d.id = p ∧ w.Deals v d drawn d' ∧
      d.Step book w (.call (.act p (selectCorporation id))) drawn d') ∨
    (∃ e, result = .error (.refused e true)) ∧ (w.SameDesks v ∨ w.Spoilt v) := by
  obtain ⟨x, hannounced, hrest⟩ := announced_of_finished h finished
  obtain ⟨d, card, drawn, e', rfl, hnone, hfound, hdeals, hgrows⟩ := choose_announced hcommit hannounced
  simp only [rest, hfound, Option.bind_some] at hrest
  have hstep (forced : Option ForcedAction) (hf : forced = (card.forcedAction? <|> d.forced)) :
      d.Step book w (.call (.act d.id (selectCorporation id))) drawn { e' with forced } :=
    .choose hnone hfound (by rw [← hf]; exact hgrows.withForced forced)
  cases hforced : card.forcedAction? with
  | none =>
    simp only [hforced] at hrest
    cases hrest
    refine .inl ⟨rfl, d, _, _, rfl, hdeals, ?_⟩
    have hstep := hstep d.forced (by rw [hforced]; rfl)
    rwa [show ({ e' with forced := d.forced } : Desk) = e' by rw [← hgrows.forced]] at hstep
  | some forced =>
    simp only [hforced] at hrest
    obtain ⟨y, hy, hdesk⟩ := World.player?_of_desk? ((hdeals.desk? d.id).trans (if_pos rfl))
    rcases result with stop | _
    · obtain ⟨r, rfl⟩ := finished stop rfl
      have hfail := hdeals.outages _ (Engine.update_mayFail hrest hy)
      have hleft := hdeals.before (Engine.update_idle hrest).toSameDesks
      exact .inr ⟨⟨r, rfl⟩, .inr (hleft.spoilt hgrows.forced hfail)⟩
    · have hput : x.Deals v y.desk [] { y.desk with forced := some forced } := Engine.update_deals hrest hy
      rw [hdesk] at hput
      refine .inl ⟨rfl, d, _, _, rfl, hdeals.trans hput, ?_⟩
      simpa using hstep (some forced) (by rw [hforced]; rfl)

theorem rest_idle (hplain : ∀ e ∈ events, e.Plain) (hnone : op.rest book p = pure ())
    (h : (Engine.announce book events >>= fun _ => op.rest book p) u = (result, v))
    (finished : Finished result) : result = .ok () ∧ u.SameDesks v := by
  have hidle := Engine.announce_idle book hplain
  obtain ⟨x, hannounced, hrest⟩ := announced_of_finished h finished
  rw [hnone] at hrest
  cases hrest
  exact ⟨rfl, (hidle.apply hannounced).toSameDesks⟩

theorem rest_heard {source : String} {d : Desk} {e : Event} {before : List Event}
    (hbefore : ∀ e' ∈ before, e'.Plain) (he : e.answers? = some (p, source))
    (hkind : e.kind ∈ [EventKind.drawConfirmed, .tilePlaced]) (hg : e.game = u.game)
    (hd : u.desk? p = some d) (hnone : op.rest book p = pure ())
    (h : (Engine.announce book (before ++ [e]) >>= fun _ => op.rest book p) u = (result, v))
    (finished : Finished result) : result = .ok () ∧
      ∃ forced, u.Hears source d.forced forced ∧ u.Deals v d [] { d with forced } := by
  obtain ⟨x, hannounced, hrest⟩ := announced_of_finished h finished
  rw [hnone] at hrest
  cases hrest
  exact ⟨rfl, Engine.announce_heard hbefore he hkind hg hd hannounced⟩

theorem run_cases (h : op.run book p w = (result, v)) (finished : Finished result) :
    (result = .ok () ∧ ∃ d drawn d', d.id = p ∧ w.Deals v d drawn d' ∧
      d.Step book w (.call (.act p op)) drawn d') ∨
    (∃ e, result = .error (.refused e true)) ∧ (w.SameDesks v ∨ w.Spoilt v) := by
  rw [run_eq] at h
  rcases Steps.bind_cases h with ⟨stop, hcommit, rfl⟩ | ⟨events, u, hcommit, h⟩
  · obtain ⟨e, rfl⟩ := finished stop rfl
    exact .inr ⟨⟨e, rfl⟩, commit_refused_dealt hcommit⟩
  cases op with
  | selectCorporation id => exact choose_cases hcommit h finished
  | play r =>
    obtain ⟨d, card, drawn, d', rfl, hfound, hheld, hdeals, hgrows⟩ := Engine.commitPlay_deals hcommit
    obtain ⟨rfl, hsame⟩ := rest_idle (Engine.commitPlay_plain hcommit) rfl h finished
    exact .inl ⟨rfl, d, drawn, d', rfl, hdeals.before hsame, .play hfound hheld hgrows⟩
  | useAction card index choice target =>
    obtain ⟨d, drawn, d', rfl, hdeals, hgrows⟩ := Engine.commitUse_deals hcommit
    obtain ⟨rfl, hsame⟩ := rest_idle (Engine.commitUse_plain hcommit) rfl h finished
    exact .inl ⟨rfl, d, drawn, d', rfl, hdeals.before hsame, .use hgrows⟩
  | place c =>
    obtain ⟨⟨bonus, events'⟩, t, hplaced, hevents⟩ := Steps.bind_eq_ok.mp hcommit
    cases hevents
    have hbus : u.session.bus = w.session.bus :=
      ((Engine.commitPlacement_quiet book.rules p c).apply hplaced).same.bus
    obtain ⟨d, offer, tileOffer, queue, before, rfl, hoffer, hlisted, hdeals, rfl, hbefore⟩ :=
      Engine.commitPlacement_deals hplaced
    have hd := (hdeals.desk? d.id).trans (if_pos rfl)
    obtain ⟨rfl, forced, hheard, hanswered⟩ :=
      rest_heard hbefore rfl (by simp [Event.kind]) rfl hd rfl h finished
    exact .inl ⟨rfl, d, _, _, rfl, hdeals.trans hanswered,
      .place hoffer hlisted (hheard.earlier hbus hdeals.outages)⟩
  | confirmDraw picked =>
    obtain ⟨e, t, hdrawn, hevents⟩ := Steps.bind_eq_ok.mp hcommit
    cases hevents
    have hbus : u.session.bus = w.session.bus := ((Engine.commitDraw_aside p picked).apply hdrawn).bus
    obtain ⟨d, offer, rfl, hoffer, hnodup, hsub, hdeals, hok⟩ :=
      (Engine.commitDraw_cases hdrawn).resolve_left (by rintro ⟨⟨_, he⟩, _⟩; cases he)
    cases hok
    have hd := (hdeals.desk? d.id).trans (if_pos rfl)
    have hnone : ∀ e ∈ ([] : List Event), e.Plain := List.forall_mem_nil _
    obtain ⟨rfl, forced, hheard, hanswered⟩ :=
      rest_heard hnone rfl (by simp [Event.kind]) rfl hd rfl h finished
    exact .inl ⟨rfl, d, _, _, rfl, hdeals.trans hanswered,
      .keep hoffer hnodup hsub (hheard.earlier hbus hdeals.outages)⟩

end Operation

namespace Engine

open World (SameDesks)

variable {book : Rulebook} {w v : World}

theorem updateGame_sameDesks (f : GameField) : Keeps SameDesks (updateGame f) := by
  intro w
  rcases hu : updateGame f w with ⟨stop | _, v⟩
  · exact ((updateGame_error hu).idle ((updateGame_spends f).apply hu)).toSameDesks
  · have hspent : World.Spends False w v := (updateGame_spends f).apply hu
    obtain ⟨hs, hr, -⟩ := updateGame_ok hu
    have hg : v.game = w.game := congrArg Session.game hs
    refine ⟨hg, ?_, World.deck_of_decks hg (hspent.decks not_false), hspent.outages⟩
    rw [World.desks, hg, hr, Records.roster_changeGame]
    rfl

/-- Reading leaves the desks and the decks alone. -/
def deskLaw : StepLaw where
  holds := Keeps SameDesks
  plays _ := True
  pure := Keeps.pure
  bind := Keeps.bind
  gameId h := Keeps.bind (fun w => Std.Refl.refl w) fun g => h g trivial
  ofExcept y w := (ofExcept_idle y w).toSameDesks
  readGame w := (readGame_idle w).toSameDesks
  readPlayer p w := (readPlayer_idle p w).toSameDesks
  findCard catalog id w := (findCard_idle catalog id w).toSameDesks

theorem advanceGeneration_sameDesks : Keeps SameDesks advanceGeneration := by
  have hroster (g : GameId) : Keeps World.Idle (onStore (Store.readRoster g)) :=
    alike_idle (onStore_alike (Store.readRoster_alike g)) (onStore_spends (Store.readRoster_spends g))
  refine deskLaw.advanceGeneration (fun _ => updateGame_sameDesks _)
    (fun {g} _ w => (hroster g w).toSameDesks) fun p actions w => (update_offDesk ?_ w).toSameDesks
  simp [Entry.OffDesk, PlayerField.write]

end Engine

namespace World

variable {book : Rulebook} {request : Request} {p : PlayerId} {w v : World} {result : Except Stop Unit}

theorem Dealt.of_refused (h : SameDesks w v ∨ Spoilt w v) : Dealt book request w result v :=
  h.elim .idle .spoilt

theorem Triggers.dealt (h : Triggers book.catalog p w v)
    (asked : request = .trigger p ∨ ∃ phase, request = .call (.setPhase phase)) :
    Dealt book request w (.ok ()) v := by
  cases h with
  | idle same => exact .idle same
  | done owner awaits opens deals => exact .step deals (.trigger (owner ▸ asked) awaits opens)
  | spoilt h => exact .spoilt h

end World

namespace Engine

variable {book : Rulebook} {p : PlayerId} {w v : World} {result : Except Stop Unit}

theorem setPhase_dealt {phase : GamePhase} (h : setPhase book phase w = (result, v))
    (finished : Finished result) : w.Dealt book (.call (.setPhase phase)) result v := by
  rcases Steps.bind_cases h with ⟨stop, hgame, rfl⟩ | ⟨game, w₁, hgame, h⟩
  · exact .idle (readGame_idle.apply hgame).toSameDesks
  have h₁ := (readGame_idle.apply hgame).toSameDesks
  rcases Steps.bind_cases h with ⟨stop, hwrite, rfl⟩ | ⟨_, w₂, hwrite, h⟩
  · exact .idle (h₁.trans ((updateGame_sameDesks _).apply hwrite))
  have h₂ := h₁.trans ((updateGame_sameDesks _).apply hwrite)
  obtain ⟨g, _, hg, h⟩ := (Steps.bind_cases h).resolve_left (by rintro ⟨_, he, _⟩; cases he)
  cases hg
  rcases result with stop | _
  · obtain ⟨e, rfl⟩ := finished stop rfl
    exact absurd rfl (announce_neverRefuses book _ w₂ _ v h e true)
  obtain ⟨_, t, ht, h⟩ := Steps.bind_eq_ok.mp h
  cases h
  obtain ⟨n, t, ht, h⟩ := Steps.bind_eq_ok.mp ht
  cases h
  have hturn := (publishWithin_turn book book.depth _).apply ht
  have htriggers := hturn.triggers (w₂.turn.getD "") fun q hq => by rw [hq]; rfl
  exact (htriggers.after h₂).dealt (.inr ⟨phase, rfl⟩)

theorem trigger_dealt (h : (Request.trigger p).run book w = (result, v)) :
    w.Dealt book (.trigger p) result v := by
  have htriggers := (triggerForced_triggers book.catalog p) w
  rcases Steps.bind_cases h with ⟨stop, htrigger, rfl⟩ | ⟨b, u, htrigger, h⟩
  · rcases triggerForced_cases htrigger with
      ⟨hidle, -⟩ | ⟨-, ⟨c, hfail⟩, d, drawn, d', -, hf, -, hdeals⟩ | ⟨hok, -⟩
    · exact .idle hidle.toSameDesks
    · exact .spoilt (hdeals.spoilt hf hfail)
    · cases hok
  · cases h
    rw [htrigger] at htriggers
    exact htriggers.dealt (.inl rfl)

end Engine

/-- Every request that finishes leaves the desks alone or does what it is for, on one desk, unless a
write fails that cannot be put back. -/
theorem Request.run_dealt {book : Rulebook} {request : Request} {w v : World} {result : Except Stop Unit}
    (h : request.run book w = (result, v)) (finished : Finished result) :
    w.Dealt book request result v := by
  cases request with
  | trigger p => exact Engine.trigger_dealt h
  | call c =>
    cases c with
    | act p op =>
      rcases Operation.run_cases h finished with ⟨rfl, d, drawn, d', -, hdeals, hstep⟩ | ⟨-, hleft⟩
      · exact .step hdeals hstep
      · exact .of_refused hleft
    | canPlay p r =>
      have hidle := Engine.alike_idle (Engine.checkPlay_alike book p r) (Engine.checkPlay_spends book p r)
      exact .idle (Keeps.apply (hidle.bind fun _ => Keeps.pure _) h).toSameDesks
    | setTurn p => exact .idle ((Engine.updateGame_sameDesks (.turn p)).apply h)
    | setPhase phase => exact Engine.setPhase_dealt h finished
    | advanceGeneration =>
      exact .idle ((Engine.advanceGeneration_sameDesks.bind fun _ => Keeps.pure _).apply h)
    | shutdown =>
      cases h
      have hgame : w.session.close.game = w.session.game := by
        unfold Session.close
        split <;> rfl
      refine .idle ⟨hgame, ?_, ?_, fun _ h => h⟩
      · exact congrArg (fun g => (w.records.roster g).map Player.desk) hgame
      · exact congrArg w.store.deck hgame

theorem Request.run_desk? {book : Rulebook} {request : Request} {w v : World} {result : Except Stop Unit}
    (h : request.run book w = (result, v)) (finished : Finished result) (reliable : w.store.Reliable)
    (p : PlayerId) : v.desk? p = w.desk? p ∨ ∃ d drawn d', d.id = p ∧ w.desk? p = some d ∧
      v.desk? p = some d' ∧ d.Step book w request drawn d' := by
  rcases (run_dealt h finished).desk? p with hsame | hspoilt | ⟨-, hstep⟩
  · exact .inl hsame
  · exact (hspoilt.mayFail.elim fun c hc => reliable.not_mayFail c hc).elim
  · exact .inr hstep

end MarsRules
