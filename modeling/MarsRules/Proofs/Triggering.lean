import MarsRules.Proofs.Desks
import MarsRules.Proofs.Requests

/-! What triggering and completing a first action do to its player's desk. A trigger puts what it asks
for in place of the selection of that kind (`Engine.triggerForced_cases`); a selection that is resolved
completes the action that waits for its source (`Engine.completeForced_answers`). -/

namespace MarsRules

open Steps (Keeps)

theorem Store.Reliable.not_mayFail {s : Store} (h : s.Reliable) (c : Call) : ¬ s.MayFail c :=
  fun ⟨o, ho, hn⟩ => hn (h c o ho)

theorem Store.Reliable.later {s t : Store} (h : s.Reliable)
    (outages : ∀ c : Call, t.MayFail c → s.MayFail c) : t.Reliable :=
  fun c o ho => Decidable.byContradiction fun hn => h.not_mayFail c (outages c ⟨o, ho, hn⟩)

namespace ForcedAction

def trigger (f : ForcedAction) (source : String) : ForcedAction :=
  { f with state := .triggered, source := some source }

/-- The action once a selection of this source is resolved. -/
def answered (source : String) (f : ForcedAction) : ForcedAction :=
  if f.matches source then { f with state := .completed } else f

theorem answered_of_matches {f : ForcedAction} {source : String} (h : f.matches source) :
    f.answered source = { f with state := .completed } := if_pos h

theorem answered_of_not {f : ForcedAction} {source : String} (h : ¬ f.matches source) :
    f.answered source = f := if_neg h

theorem answered_answered (source : String) (f : ForcedAction) :
    (f.answered source).answered source = f.answered source := by
  by_cases h : f.matches source
  · rw [answered_of_matches h]
    exact answered_of_not (by simp [ForcedAction.matches])
  · rw [answered_of_not h, answered_of_not h]

/-- Nothing has happened to it, or it was pending and has been triggered. -/
def Starts (x y : Option ForcedAction) : Prop :=
  y = x ∨ ∃ f source, x = some f ∧ f.state = .pending ∧ y = some (f.trigger source)

theorem Starts.trans {x y z : Option ForcedAction} (h : Starts x y) (h' : Starts y z) : Starts x z := by
  rcases h with rfl | ⟨f, source, rfl, hf, rfl⟩
  · exact h'
  · rcases h' with rfl | ⟨f', source', hf', hpending, -⟩
    · exact .inr ⟨f, source, rfl, hf, rfl⟩
    · cases hf'
      cases hpending

end ForcedAction

namespace Desk

/-- The tiles that are still to be placed, the one that is offered first. -/
def toPlace (d : Desk) : List TileKind :=
  d.tileOffer.toList.map (·.tile) ++ d.queue.elim [] (·.tiles)

/-- The desk once a selection of this source is resolved. -/
def answer (d : Desk) (source : String) : Desk := { d with forced := d.forced.map (·.answered source) }

theorem answer_answer (d : Desk) (source : String) : (d.answer source).answer source = d.answer source := by
  cases hf : d.forced <;> simp [answer, hf, ForcedAction.answered_answered]

theorem answer_of_not {d : Desk} {source : String}
    (h : ∀ f, d.forced = some f → ¬ f.matches source) : d.answer source = d := by
  have hsame : d.forced.map (·.answered source) = d.forced := by
    cases hf : d.forced with
    | none => rfl
    | some f => exact congrArg some (ForcedAction.answered_of_not (h f hf))
  unfold answer
  rw [hsame]

/-- A first action waits to be triggered, and this is what its corporation asks for. -/
structure Awaits (catalog : Catalog) (d : Desk) (f : ForcedAction) (corporation : Card)
    (item : LineItem) : Prop where
  forced : d.forced = some f
  pending : f.state = .pending
  found : catalog.find? f.corporation = some corporation
  output : corporation.firstActionOutput? = some item

/-- What is asked for is put on the desk in place of the selection of its kind: the top cards of the
deck, or a tile for the hexes where it fits. -/
inductive Opens (deck : List CardId) (source : CardId) (item : LineItem) (d : Desk) :
    List CardId → Desk → Prop
  | draw (kind : item.kind = .cardDraw) :
      Opens deck source item d (deck.take item.amount.toNat)
        { d with drawOffer := some {
            cards := deck.take item.amount.toNat
            free := item.amount.toNat
            maxBought := 0
            price := 0
            source } }
  | tile {tile : TileKind} (kind : item.kind = .tilePlacement tile) {hexes : List Coord}
      (fits : hexes ≠ []) :
      Opens deck source item d [] { d with tileOffer := some { tile, hexes, source } }

theorem Opens.forced {deck : List CardId} {source : CardId} {item : LineItem} {d d' : Desk}
    {drawn : List CardId} (h : Opens deck source item d drawn d') :
    d'.forced = d.forced ∧ d'.queue = d.queue := by
  cases h <;> exact ⟨rfl, rfl⟩

end Desk

namespace World

/-- A player's first action. -/
def forced? (w : World) (p : PlayerId) : Option ForcedAction := (w.desk? p).bind (·.forced)

theorem forced?_of_desk? {w : World} {p : PlayerId} {d : Desk} (h : w.desk? p = some d) :
    w.forced? p = d.forced := by rw [forced?, h]; rfl

theorem SameDesks.forced? {w v : World} (h : SameDesks w v) (p : PlayerId) :
    v.forced? p = w.forced? p := by rw [World.forced?, h.desk?]; rfl

theorem Deals.forced? {w v : World} {d d' : Desk} {drawn : List CardId} (h : Deals w v d drawn d')
    (p : PlayerId) : v.forced? p = if p = d.id then d'.forced else w.forced? p := by
  rw [World.forced?, h.desk?]
  split <;> rfl

theorem Deals.starts {w v : World} {d d' : Desk} {drawn : List CardId} (h : Deals w v d drawn d')
    (hf : ForcedAction.Starts d.forced d'.forced) (p : PlayerId) :
    ForcedAction.Starts (w.forced? p) (v.forced? p) := by
  rw [h.forced?]
  split
  · next hp => rwa [hp, forced?_of_desk? h.there]
  · exact .inl rfl

/-- A field could not be written, and something is left half done. No first action was completed. -/
structure Spoilt (w v : World) : Prop where
  game : v.game = w.game
  mayFail : ∃ c : Write, w.store.MayFail c
  outages : ∀ c, v.store.MayFail c → w.store.MayFail c
  forced : ∀ p, ForcedAction.Starts (w.forced? p) (v.forced? p)

theorem Deals.spoilt {w v : World} {d d' : Desk} {drawn : List CardId} (h : Deals w v d drawn d')
    (hf : d'.forced = d.forced) {c : Write} (hfail : w.store.MayFail c) : Spoilt w v :=
  ⟨h.game, ⟨c, hfail⟩, h.outages, h.starts (.inl hf)⟩

/-- What becomes of the desks where the first action of a player may be triggered. -/
inductive Triggers (catalog : Catalog) (p : PlayerId) (w v : World) : Prop
  | idle (same : SameDesks w v)
  | done {d d' : Desk} {f : ForcedAction} {corporation : Card} {item : LineItem} {drawn : List CardId}
      (owner : d.id = p) (awaits : d.Awaits catalog f corporation item)
      (opens : d.Opens w.deck corporation.id item drawn d')
      (deals : Deals w v d drawn { d' with forced := some (f.trigger corporation.id) })
  | spoilt (h : Spoilt w v)

section Relations

variable {catalog : Catalog} {p : PlayerId} {w v u : World}

theorem Spoilt.after (h : Spoilt v u) (hg : v.game = w.game)
    (ho : ∀ c, v.store.MayFail c → w.store.MayFail c)
    (hf : ∀ p, ForcedAction.Starts (w.forced? p) (v.forced? p)) : Spoilt w u :=
  ⟨h.game.trans hg, h.mayFail.imp fun _ => ho _, fun c hc => ho c (h.outages c hc),
    fun p => (hf p).trans (h.forced p)⟩

theorem Spoilt.before (h : Spoilt w v) (hg : u.game = v.game)
    (ho : ∀ c, u.store.MayFail c → v.store.MayFail c)
    (hf : ∀ p, ForcedAction.Starts (v.forced? p) (u.forced? p)) : Spoilt w u :=
  ⟨hg.trans h.game, h.mayFail, fun c hc => h.outages c (ho c hc), fun p => (h.forced p).trans (hf p)⟩

theorem SameDesks.starts (h : SameDesks w v) (p : PlayerId) :
    ForcedAction.Starts (w.forced? p) (v.forced? p) := .inl (h.forced? p)

namespace Triggers

theorem game (h : Triggers catalog p w v) : v.game = w.game := by
  cases h with
  | idle h => exact h.game
  | done _ _ _ deals => exact deals.game
  | spoilt h => exact h.game

theorem outages (h : Triggers catalog p w v) (c : Call) (hc : v.store.MayFail c) :
    w.store.MayFail c := by
  cases h with
  | idle h => exact h.outages c hc
  | done _ _ _ deals => exact deals.outages c hc
  | spoilt h => exact h.outages c hc

theorem starts (h : Triggers catalog p w v) (q : PlayerId) :
    ForcedAction.Starts (w.forced? q) (v.forced? q) := by
  cases h with
  | idle h => exact h.starts q
  | done _ awaits _ deals =>
    exact deals.starts (.inr ⟨_, _, awaits.forced, awaits.pending, rfl⟩) q
  | spoilt h => exact h.forced q

theorem after (h : SameDesks w v) (h' : Triggers catalog p v u) : Triggers catalog p w u := by
  cases h' with
  | idle h' => exact .idle (h.trans h')
  | done owner awaits opens deals => exact .done owner awaits (h.deck ▸ opens) (.after h deals)
  | spoilt h' => exact .spoilt (h'.after h.game h.outages h.starts)

theorem trans (h : Triggers catalog p w v) (h' : Triggers catalog p v u) : Triggers catalog p w u := by
  cases h with
  | idle h => exact .after h h'
  | spoilt h => exact .spoilt (h.before h'.game h'.outages h'.starts)
  | @done d d' f corporation item drawn owner awaits opens deals =>
    cases h' with
    | idle h' => exact .done owner awaits opens (deals.before h')
    | @done e e' f' _ _ _ owner' awaits' _ deals' =>
      have he := deals'.there
      rw [owner', deals.desk?, if_pos owner.symm] at he
      obtain rfl := Option.some.inj he
      obtain rfl := Option.some.inj awaits'.forced
      cases awaits'.pending
    | spoilt h' =>
      exact .spoilt (h'.after deals.game deals.outages
        (deals.starts (.inr ⟨f, _, awaits.forced, awaits.pending, rfl⟩)))

end Triggers

/-- A player's desk is left alone, or what answers a selection of this source is done on it. -/
structure Answers (p : PlayerId) (source : String) (w v : World) : Prop where
  bus : v.session.bus = w.session.bus
  desks : SameDesks w v ∨ ∃ d, d.id = p ∧ Deals w v d [] (d.answer source)

namespace Answers

variable {source : String}

theorem idle (h : Idle w v) : Answers p source w v := ⟨h.bus, .inl h.toSameDesks⟩

theorem refl (w : World) : Answers p source w w := .idle (.refl w)

theorem trans (h : Answers p source w v) (h' : Answers p source v u) : Answers p source w u := by
  refine ⟨h'.bus.trans h.bus, ?_⟩
  rcases h.desks with hs | ⟨d, hd, hdeals⟩ <;> rcases h'.desks with hs' | ⟨d', hd', hdeals'⟩
  · exact .inl (hs.trans hs')
  · exact .inr ⟨d', hd', .after hs hdeals'⟩
  · exact .inr ⟨d, hd, hdeals.before hs'⟩
  · have he := hdeals'.there
    rw [hd', hdeals.desk?, if_pos hd.symm] at he
    obtain rfl := Option.some.inj he
    have hboth := hdeals.trans hdeals'
    rw [Desk.answer_answer] at hboth
    exact .inr ⟨d, hd, hboth⟩

instance : Std.Refl (Answers p source) := ⟨.refl⟩

instance : Trans (Answers p source) (Answers p source) (Answers p source) := ⟨.trans⟩

theorem outages (h : Answers p source w v) (c : Call) (hc : v.store.MayFail c) : w.store.MayFail c := by
  rcases h.desks with h | ⟨d, -, h⟩
  · exact h.outages c hc
  · exact h.outages c hc

theorem desk? (h : Answers p source w v) {d : Desk} (hd : w.desk? p = some d) :
    v.desk? p = some d ∨ v.desk? p = some (d.answer source) := by
  rcases h.desks with hsame | ⟨d', rfl, hdeals⟩
  · exact .inl ((hsame.desk? p).trans hd)
  · obtain rfl := Option.some.inj (hd.symm.trans hdeals.there)
    exact .inr ((hdeals.desk? _).trans (if_pos rfl))

end Answers

end Relations

end World

namespace Engine

variable {α : Type} {p : PlayerId} {w v : World} {x : Player}

theorem readPlayer_mayFail {stop : Stop} (h : readPlayer p w = (.error stop, v))
    (hp : w.player? p = some x) : w.store.MayFail (Read.player : Call) := by
  obtain ⟨e, t, ht, -, rfl⟩ := onStore_eq_error.mp (show onStore _ w = _ from h)
  rcases Steps.bind_eq_error.mp ht with ht | ⟨_, u, hu, ht⟩
  · exact Store.perform_error ht
  · have hs := (Store.perform_alike _).apply hu
    have hthere : Store.thePlayer w.game p u = (.ok x, u) :=
      Store.thePlayer_eq_ok.mpr ⟨hs.records ▸ hp, rfl⟩
    cases hthere.symm.trans ht

/-- Offering what is asked for does nothing, draws what is then lost, or opens the selection. -/
theorem offerForced_cases {source : CardId} {item : LineItem} {result : Except Stop Unit}
    (h : offerForced p source item w = (result, v)) (hp : w.player? p = some x) :
    (w.Idle v ∧ ∃ stop, result = .error stop) ∨
    ((∃ stop, result = .error stop) ∧ w.store.MayFail (Write.drawOffer : Call) ∧
      ∃ drawn, w.Deals v x.desk drawn x.desk) ∨
    (result = .ok () ∧ ∃ drawn d', x.desk.Opens w.deck source item drawn d' ∧
      w.Deals v x.desk drawn d') := by
  cases hkind : item.kind with
  | cardDraw =>
    simp only [offerForced, hkind] at h
    obtain ⟨_, _, hg, h⟩ := (Steps.bind_cases h).resolve_left nofun
    cases hg
    rcases Steps.bind_cases h with ⟨stop, hdrawn, rfl⟩ | ⟨cards, u, hdrawn, h⟩
    · have hs := drawCards_error hdrawn
      exact .inl ⟨World.Wrote.idle ((drawCards_wrote _ _).apply hdrawn) hs, stop, rfl⟩
    · obtain ⟨rfl, hdeals, hu⟩ := drawCards_deals hdrawn hp
      rcases result with stop | _
      · have hfail := hdeals.outages _ (update_mayFail h hu)
        exact .inr (.inl ⟨⟨stop, rfl⟩, hfail, _, hdeals.before (update_idle h).toSameDesks⟩)
      · have hopened := hdeals.trans (update_deals h hu)
        rw [List.append_nil] at hopened
        exact .inr (.inr ⟨rfl, _, _, .draw hkind, hopened⟩)
  | tilePlacement tile =>
    simp only [offerForced, hkind] at h
    rcases Steps.bind_cases h with ⟨stop, hgame, rfl⟩ | ⟨game, u, hgame, h⟩
    · exact .inl ⟨readGame_idle.apply hgame, stop, rfl⟩
    have hu := ((readGame_ok hgame).2.player? p).trans hp
    split at h
    · cases h
      exact .inl ⟨readGame_idle.apply hgame, _, rfl⟩
    · next hfits =>
      have hfits : game.board.legalHexes tile p ≠ [] := by simpa using hfits
      rcases result with stop | _
      · exact .inl ⟨(readGame_idle.apply hgame).trans (update_idle h), stop, rfl⟩
      · have hopened := update_deals h hu
        have hu := (readGame_idle.apply hgame).toSameDesks
        exact .inr (.inr ⟨rfl, _, _, .tile hkind hfits, .after hu hopened⟩)
  | _ =>
    simp only [offerForced, hkind] at h
    cases h
    exact .inl ⟨.refl _, _, rfl⟩

variable {catalog : Catalog}

/-- A trigger looks for what is asked for: it has done nothing when it does not find it, and otherwise goes
on to open the selection. -/
theorem triggerForced_looks {result : Except Stop Bool} (h : triggerForced catalog p w = (result, v)) :
    (World.Alike w v ∧ World.Spends False w v ∧ result ≠ .ok true) ∨
    ∃ x u f corporation t item, readPlayer p w = (.ok x, u) ∧
      findCard catalog f.corporation u = (.ok corporation, t) ∧ x.desk.Awaits catalog f corporation item ∧
      (do offerForced p corporation.id item
          update p (.forced (some (f.trigger corporation.id)))
          return true : Engine Bool) t = (result, v) := by
  rcases Steps.bind_cases h with ⟨stop, hread, rfl⟩ | ⟨x, u, hread, h⟩
  · exact .inl ⟨(readPlayer_alike p).apply hread, (readPlayer_spends p).apply hread, nofun⟩
  have hu : World.Alike w u ∧ World.Spends False w u :=
    ⟨(readPlayer_alike p).apply hread, (readPlayer_spends p).apply hread⟩
  cases hforced : x.forced with
  | none =>
    simp only [hforced] at h
    cases h
    exact .inl ⟨hu.1, hu.2, nofun⟩
  | some f =>
    simp only [hforced] at h
    split at h
    · cases h
      exact .inl ⟨hu.1, hu.2, nofun⟩
    next hpending =>
    have hspends : Keeps (World.Spends False) (findCard catalog f.corporation) := findCard_spends _ _
    have ht {r : Except Stop Card} {t : World} (hcard : findCard catalog f.corporation u = (r, t)) :
        World.Alike w t ∧ World.Spends False w t :=
      ⟨Trans.trans hu.1 ((findCard_alike _ _).apply hcard), Trans.trans hu.2 (hspends.apply hcard)⟩
    rcases Steps.bind_cases h with ⟨stop, hcard, rfl⟩ | ⟨corporation, t, hcard, h⟩
    · exact .inl ⟨(ht hcard).1, (ht hcard).2, nofun⟩
    cases hitem : corporation.firstActionOutput? with
    | none =>
      simp only [hitem] at h
      cases h
      exact .inl ⟨(ht hcard).1, (ht hcard).2, nofun⟩
    | some item =>
      simp only [hitem] at h
      exact .inr ⟨x, u, f, corporation, t, item, hread, hcard,
        ⟨hforced, Decidable.not_not.mp hpending, findCard_ok hcard, hitem⟩, h⟩

theorem triggerForced_cases {result : Except Stop Bool} (h : triggerForced catalog p w = (result, v)) :
    (w.Idle v ∧ result ≠ .ok true) ∨
    ((∃ stop, result = .error stop) ∧ (∃ c : Write, w.store.MayFail c) ∧ ∃ d drawn d', d.id = p ∧
      d'.forced = d.forced ∧ d'.queue = d.queue ∧ w.Deals v d drawn d') ∨
    (result = .ok true ∧ ∃ d f corporation item drawn d', d.id = p ∧
      d.Awaits catalog f corporation item ∧ d.Opens w.deck corporation.id item drawn d' ∧
      w.Deals v d drawn { d' with forced := some (f.trigger corporation.id) }) := by
  rcases triggerForced_looks h with
    ⟨ha, hs, hresult⟩ | ⟨x, u, f, corporation, t, item, hread, hcard, hawaits, h⟩
  · exact .inl ⟨ha.idle hs, hresult⟩
  have ht : w.Idle t :=
    ((readPlayer_idle p).apply hread).trans
      ((findCard_idle catalog f.corporation).apply hcard)
  obtain ⟨hp, ha⟩ := readPlayer_ok hread
  have hpt : t.player? p = some x :=
    (((findCard_alike _ _).apply hcard).player? p).trans ((ha.player? p).trans hp)
  obtain rfl := World.player?_id hp
  rcases Steps.bind_cases h with ⟨stop, hoffer, rfl⟩ | ⟨_, y, hoffer, h⟩
  · rcases offerForced_cases hoffer hpt with ⟨hidle, -⟩ | ⟨-, hfail, drawn, hdeals⟩ | ⟨hok, -⟩
    · exact .inl ⟨ht.trans hidle, nofun⟩
    · exact .inr (.inl ⟨⟨stop, rfl⟩, ⟨_, ht.outages _ hfail⟩, x.desk, drawn, x.desk, rfl, rfl, rfl,
        .after ht.toSameDesks hdeals⟩)
    · cases hok
  obtain ⟨-, drawn, d', hopens, hdeals⟩ :=
    ((offerForced_cases hoffer hpt).resolve_left nofun).resolve_left nofun
  have hdeals : w.Deals y x.desk drawn d' := .after ht.toSameDesks hdeals
  rw [ht.deck] at hopens
  obtain ⟨z, hz, rfl⟩ := World.player?_of_desk? ((hdeals.desk? x.id).trans (if_pos rfl))
  rcases Steps.bind_cases h with ⟨stop, hwrite, rfl⟩ | ⟨_, v', hwrite, h⟩
  · exact .inr (.inl ⟨⟨stop, rfl⟩, ⟨_, hdeals.outages _ (update_mayFail hwrite hz)⟩, x.desk, drawn,
      z.desk, rfl, hopens.forced.1, hopens.forced.2, hdeals.before (update_idle hwrite).toSameDesks⟩)
  · cases h
    have hwritten := hdeals.trans (update_deals hwrite hz)
    rw [List.append_nil] at hwritten
    exact .inr (.inr ⟨rfl, x.desk, f, corporation, item, drawn, z.desk, rfl, hawaits, hopens, hwritten⟩)

theorem triggerForced_triggers (catalog : Catalog) (p : PlayerId) :
    Keeps (World.Triggers catalog p) (triggerForced catalog p) := by
  intro w
  rcases h : triggerForced catalog p w with ⟨result, v⟩
  rcases triggerForced_cases h with ⟨hidle, -⟩ | ⟨-, hfail, d, drawn, d', -, hf, -, hdeals⟩ |
    ⟨-, d, f, corporation, item, drawn, d', hid, hawaits, hopens, hdeals⟩
  · exact .idle hidle.toSameDesks
  · exact .spoilt (hfail.elim fun _ => hdeals.spoilt hf)
  · exact .done hid hawaits hopens hdeals

/-- Completing does nothing, because a call may fail or the action does not wait for this source, or it
does what answers the selection. -/
theorem completeForced_cases {source : String} {result : Except Stop Unit}
    (h : completeForced p source w = (result, v)) (hp : w.player? p = some x) :
    (w.Idle v ∧ ((∃ c, w.store.MayFail c) ∨ x.desk.answer source = x.desk)) ∨
      (v.session.bus = w.session.bus ∧ w.Deals v x.desk [] (x.desk.answer source)) := by
  rcases Steps.bind_cases h with ⟨stop, hread, rfl⟩ | ⟨y, u, hread, h⟩
  · exact .inl ⟨(readPlayer_idle p).apply hread, .inl ⟨_, readPlayer_mayFail hread hp⟩⟩
  have hu := (readPlayer_idle p).apply hread
  obtain ⟨hy, ha⟩ := readPlayer_ok hread
  obtain rfl := Option.some.inj (hp.symm.trans hy)
  have hpu := (ha.player? p).trans hp
  cases hforced : x.forced with
  | none =>
    simp only [hforced] at h
    cases h
    exact .inl ⟨hu, .inr (Desk.answer_of_not fun f hf => by cases hforced.symm.trans hf)⟩
  | some f =>
    simp only [hforced] at h
    split at h
    · next hmatches =>
      rcases result with stop | _
      · exact .inl ⟨hu.trans (update_idle h), .inl ⟨_, hu.outages _ (update_mayFail h hpu)⟩⟩
      · have hanswer : (PlayerField.put (.forced (some { f with state := .completed })) x).desk =
            x.desk.answer source := by
          simp [Player.desk, Desk.answer, PlayerField.put, hforced, ForcedAction.answered_of_matches hmatches]
        refine .inr ⟨?_, hanswer ▸ .after hu.toSameDesks (update_deals h hpu)⟩
        exact (congrArg Session.bus (update_ok h).2.1).trans hu.bus
    · next hmatches =>
      cases h
      refine .inl ⟨hu, .inr (Desk.answer_of_not fun f' hf => ?_)⟩
      obtain rfl := Option.some.inj (hforced.symm.trans hf)
      exact hmatches

theorem completeForced_answers (p : PlayerId) (source : String) :
    Keeps (World.Answers p source) (completeForced p source) := by
  intro w
  rcases h : completeForced p source w with ⟨result, v⟩
  cases hp : w.player? p with
  | none =>
    rcases Steps.bind_cases h with ⟨stop, hread, rfl⟩ | ⟨y, u, hread, -⟩
    · exact .idle ((readPlayer_idle p).apply hread)
    · cases hp.symm.trans (readPlayer_ok hread).1
  | some x =>
    rcases completeForced_cases h hp with ⟨hidle, -⟩ | ⟨hbus, hdeals⟩
    · exact .idle hidle
    · exact ⟨hbus, .inr ⟨x.desk, World.player?_id hp, hdeals⟩⟩

theorem completeForced_prompt {source : String} {d : Desk} (hw : w.store.Reliable)
    (hd : w.desk? p = some d) : (completeForced p source w).2.desk? p = some (d.answer source) := by
  obtain ⟨x, hp, rfl⟩ := World.player?_of_desk? hd
  rcases h : completeForced p source w with ⟨result, v⟩
  rcases completeForced_cases h hp with ⟨hidle, ⟨c, hc⟩ | hsame⟩ | ⟨-, hdeals⟩
  · exact absurd hc (hw.not_mayFail c)
  · exact (hidle.desk? p).trans (hsame.symm ▸ hd)
  · exact (hdeals.desk? p).trans (if_pos (World.player?_id hp).symm)

end Engine

/-- The player and the source that an event reports a resolved selection of. -/
def Event.answers? : Event → Option (PlayerId × String)
  | .drawConfirmed e => some (e.player, e.source)
  | .tilePlaced e => e.source.map (e.player, ·)
  | _ => none

namespace Engine

open World (Answers)

variable {book : Rulebook} {catalog : Catalog} {e : Event} {p : PlayerId} {source : String} {w v : World}
  {d : Desk}

theorem watchForced_of_answers (he : e.answers? = some (p, source)) (hg : e.game = w.game) :
    watchForced catalog e w = completeForced p source w := by
  have hgame : (gameId >>= fun g => if e.game ≠ g then pure () else completeForced p source) w =
      completeForced p source w := by
    rw [Steps.bind_apply_ok (show gameId w = (.ok w.game, w) from rfl), if_neg (not_not.mpr hg)]
  rw [← hgame]
  cases e with
  | drawConfirmed e =>
    obtain ⟨rfl, rfl⟩ : e.player = p ∧ e.source = source := by simpa [Event.answers?] using he
    rfl
  | tilePlaced e =>
    obtain ⟨hsource, rfl⟩ : e.source = some source ∧ e.player = p := by simpa [Event.answers?] using he
    unfold watchForced
    simp only [hsource]
  | _ => cases he

theorem watchForced_of_ne (catalog : Catalog) (hg : e.game ≠ w.game) :
    watchForced catalog e w = (.ok (), w) := by
  unfold watchForced
  rw [Steps.bind_apply_ok (show gameId w = (.ok w.game, w) from rfl), if_pos hg]
  rfl

theorem react_answers (book : Rulebook) (he : e.answers? = some (p, source)) (l : Listener) :
    Keeps (Answers p source) (l.react book e) := by
  by_cases hl : l = .forcedAction
  · subst hl
    refine Keeps.bind (fun w => ?_) fun _ => Keeps.pure _
    by_cases hg : e.game = w.game
    · rw [watchForced_of_answers he hg]
      exact completeForced_answers p source w
    · rw [watchForced_of_ne _ hg]
      exact .refl w
  · exact fun w => .idle (Listener.react_idle_of_ne book e hl w)

theorem publishWithin_answers (book : Rulebook) (depth : Nat) (he : e.answers? = some (p, source)) :
    Keeps (Answers p source) (publishWithin book depth e) := by
  cases depth with
  | zero => exact Keeps.stop _
  | succ depth =>
    exact publishWithin_keeps_of (react_answers book he) fun _ _ _ _ hreact e' he' w =>
      .idle (publishWithin_idle book depth (Listener.react_plain hreact e' he') w)

theorem publishWithin_unheard (book : Rulebook) (depth : Nat)
    (hs : ∀ s ∈ w.session.bus.listeners e.kind, s.handler ≠ .forcedAction) :
    World.Idle w (publishWithin book depth e w).2 := by
  cases depth with
  | zero => exact Keeps.stop _ w
  | succ depth =>
    exact publishWithin_keeps_here (fun s hs' => Listener.react_idle_of_ne book e (hs s hs'))
      fun _ _ _ _ hreact e' he' => publishWithin_idle book depth (Listener.react_plain hreact e' he')

theorem publishWithin_prompt {depth n : Nat} (he : e.answers? = some (p, source))
    (hg : e.game = w.game) (hw : w.store.Reliable)
    (hs : ∃ s ∈ w.session.bus.listeners e.kind, s.handler = .forcedAction)
    (hd : w.desk? p = some d) (h : publishWithin book depth e w = (.ok n, v)) :
    v.desk? p = some (d.answer source) := by
  obtain ⟨s, hs, hforced⟩ := hs
  cases depth with
  | zero => cases h
  | succ depth =>
    refine publishWithin_reaches (R := Answers p source) (P := fun u => u.desk? p = some (d.answer source))
      (react_answers book he) (fun _ _ _ _ hreact e' he' w => ?_) (fun u v hu huv => ?_) hs
      (fun u hu => hu.bus) (fun u hu => ?_) h
    · exact .idle (publishWithin_idle book depth (Listener.react_plain hreact e' he') w)
    · have hv := huv.desk? hu
      rwa [Desk.answer_answer, or_self] at hv
    · have hreliable : u.store.Reliable := hw.later hu.outages
      have hgame : e.game = u.game := by
        rcases hu.desks with hdesks | ⟨_, -, hdesks⟩ <;> exact hg.trans hdesks.game.symm
      have hreact : (s.handler.react book e u).2 = (completeForced p source u).2 := by
        have hwatch : watchForced book.catalog e u = completeForced p source u :=
          watchForced_of_answers he hgame
        rw [hforced, ← hwatch]
        show ((watchForced book.catalog e >>= fun _ => pure []) u).2 = _
        rw [Steps.bind_apply]
        rcases watchForced book.catalog e u with ⟨_ | _, _⟩ <;> rfl
      rw [hreact]
      rcases hu.desk? hd with hdu | hdu
      · exact completeForced_prompt hreliable hdu
      · rw [completeForced_prompt hreliable hdu, Desk.answer_answer]

end Engine

/-- The first action of whoever is at turn may be triggered. -/
structure World.TurnTriggers (catalog : Catalog) (w v : World) : Prop where
  turn : v.turn = w.turn
  triggers : ∀ p, (∀ q, w.turn = some q → q = p) → Triggers catalog p w v

namespace World.TurnTriggers

variable {catalog : Catalog} {w v u : World}

theorem idle (h : Idle w v) : TurnTriggers catalog w v := ⟨h.turn, fun _ _ => .idle h.toSameDesks⟩

instance : Std.Refl (TurnTriggers catalog) := ⟨fun w => idle (.refl w)⟩

instance : Trans (TurnTriggers catalog) (TurnTriggers catalog) (TurnTriggers catalog) :=
  ⟨fun h h' => ⟨h'.turn.trans h.turn, fun p hp =>
    (h.triggers p hp).trans (h'.triggers p (h.turn ▸ hp))⟩⟩

end World.TurnTriggers

namespace Engine

open World (TurnTriggers)

theorem triggerForced_turn {catalog : Catalog} {p : PlayerId} {w : World} (hp : w.turn = some p) :
    TurnTriggers catalog w (triggerForced catalog p w).2 := by
  have hwrote : World.Wrote (fun _ => True) w (triggerForced catalog p w).2 :=
    triggerForced_wrote (fun _ _ => trivial) catalog p w
  refine ⟨hwrote.turn, fun q hq => ?_⟩
  obtain rfl := hq p hp
  exact triggerForced_triggers catalog p w

theorem watchForced_turn (catalog : Catalog) (e : PhaseChanged) :
    Keeps (TurnTriggers catalog) (watchForced catalog (.phaseChanged e)) := by
  refine Keeps.bind (fun w => .idle (.refl w)) fun g => ?_
  split
  · exact Keeps.pure _
  dsimp only
  split
  · refine Keeps.bind_of (fun w => .idle (readGame_idle w)) fun w game v h => ?_
    have hturn : v.turn = game.turn := by
      rw [(readGame_idle.apply h).turn, World.turn, (readGame_ok h).1]
      rfl
    cases hgame : game.turn with
    | none => exact Std.Refl.refl v
    | some p =>
      exact Steps.related_bind (triggerForced_turn (hturn.trans hgame)) fun _ t _ => Std.Refl.refl t
  · exact Keeps.pure _

theorem publishWithin_turn (book : Rulebook) (depth : Nat) (e : PhaseChanged) :
    Keeps (TurnTriggers book.catalog) (publishWithin book depth (.phaseChanged e)) := by
  cases depth with
  | zero => exact Keeps.stop _
  | succ depth =>
    refine publishWithin_keeps_of (fun l => ?_) fun _ _ _ _ hreact e' he' w =>
      .idle (publishWithin_idle book depth (Listener.react_plain hreact e' he') w)
    by_cases hl : l = .forcedAction
    · subst hl
      exact (watchForced_turn book.catalog e).bind fun _ => Keeps.pure _
    · exact fun w => .idle (Listener.react_idle_of_ne book _ hl w)

end Engine

/-! What was waiting already. -/

theorem Desk.Opens.waiting {deck : List CardId} {source : CardId} {item : LineItem} {d d' : Desk}
    {drawn : List CardId} (h : d.Opens deck source item drawn d') :
    (item.kind = .cardDraw ∧ d'.toPlace = d.toPlace ∧
      ((d.toTake ++ drawn).Perm d'.toTake ↔ d.toTake = [])) ∨
    ∃ tile, item.kind = .tilePlacement tile ∧ d'.toTake = d.toTake ∧ drawn = [] ∧
      ((tile :: d.toPlace).Perm d'.toPlace ↔ d.tileOffer = none) := by
  cases h with
  | draw kind =>
    refine .inl ⟨kind, rfl, fun hperm => ?_, fun hnone => ?_⟩
    · simpa [Desk.toTake] using hperm.length_eq
    · rw [hnone]
      exact .refl _
  | @tile tile kind hexes fits =>
    refine .inr ⟨tile, kind, rfl, rfl, fun hperm => ?_, fun hnone => ?_⟩
    · have hlength := hperm.length_eq
      cases hoffer : d.tileOffer <;> simp_all [Desk.toPlace]
    · simp [Desk.toPlace, hnone]

namespace Engine

variable {catalog : Catalog} {p : PlayerId} {w v : World} {d : Desk}

/-- A trigger that does not end well leaves what waits for the player alone, short of a write that
fails. One that does puts its selection in place of the open one: cards and tiles that waited are all
still there exactly if no selection of that kind was open, while those of the other kind and the queue
are left alone. -/
theorem triggerForced_waiting {result : Except Stop Bool} (h : triggerForced catalog p w = (result, v))
    (hd : w.desk? p = some d) : ∃ d', v.desk? p = some d' ∧ d'.queue = d.queue ∧
      (result = .ok false → d' = d) ∧
      (∀ stop, result = .error stop →
        d' = d ∨ d'.forced = d.forced ∧ ∃ c : Write, w.store.MayFail c) ∧
      (result = .ok true → ∃ f corporation item drawn, d.Awaits catalog f corporation item ∧
        d'.forced = some (f.trigger corporation.id) ∧ w.deck = drawn ++ v.deck ∧
        ((item.kind = .cardDraw ∧ d'.toPlace = d.toPlace ∧
            ((d.toTake ++ drawn).Perm d'.toTake ↔ d.toTake = [])) ∨
          ∃ tile, item.kind = .tilePlacement tile ∧ d'.toTake = d.toTake ∧ drawn = [] ∧
            ((tile :: d.toPlace).Perm d'.toPlace ↔ d.tileOffer = none))) := by
  have hthere {e e' : Desk} {drawn : List CardId} (he : e.id = p) (hdeals : w.Deals v e drawn e') :
      e = d ∧ v.desk? p = some e' :=
    ⟨Option.some.inj ((he ▸ hdeals.there).symm.trans hd), (hdeals.desk? p).trans (if_pos he.symm)⟩
  rcases triggerForced_cases h with
    ⟨hidle, hresult⟩ | ⟨⟨stop, rfl⟩, hfail, e, drawn, e', he, hf, hq, hdeals⟩ |
    ⟨rfl, e, f, corporation, item, drawn, e', he, hawaits, hopens, hdeals⟩
  · exact ⟨d, (hidle.desk? p).trans hd, rfl, fun _ => rfl, fun _ _ => .inl rfl, fun h => absurd h hresult⟩
  · obtain ⟨rfl, hv⟩ := hthere he hdeals
    exact ⟨e', hv, hq, nofun, fun _ _ => .inr ⟨hf, hfail⟩, nofun⟩
  · obtain ⟨rfl, hv⟩ := hthere he hdeals
    exact ⟨_, hv, hopens.forced.2, nofun, nofun, fun _ =>
      ⟨f, corporation, item, drawn, hawaits, rfl, hdeals.deck, hopens.waiting⟩⟩

/-- A corporation that draws a card at the start and two with its first action. -/
def scouts : Card where
  id := "scouts"
  name := "Scouts"
  type := .corporation
  behaviors := [.corporationStart [{ kind := .cardDraw, amount := 1 }],
    .firstAction { kind := .cardDraw, amount := 2 }]

def scouting : Rulebook where
  catalog := ⟨[scouts]⟩
  rules := {}
  depth := 8

def camp : World where
  store := {
    games := [("game", { id := "game", turn := some "player" })]
    rosters := [("game", [Player.named "player"])]
    decks := [("game", ["ants", "birds", "comet", "dust"])] }
  session := (Session.new "game" false).watch

/-- The player has chosen the corporation. -/
def scoutsChosen : Made :=
  .of scouting (.call (.act "player" (.selectCorporation "scouts"))) (camp.withOutages fun _ => [])

theorem scoutsChosen_log : Log scouting camp [scoutsChosen] scoutsChosen.after :=
  Log.step .start (fun _ => []) (.of_ok (a := ()) (by decide +kernel))

/-- Once the card of the start is taken, the trigger finds nothing to replace. -/
theorem triggerForced_waiting_scouts :
    let taken := (Made.of scouting (.call (.act "player" (.confirmDraw ["ants"]))) scoutsChosen.after).after
    ∃ d d' v, taken.desk? "player" = some d ∧ d.hand = ["ants"] ∧ d.toTake = [] ∧
      triggerForced scouting.catalog "player" taken = (.ok true, v) ∧ v.desk? "player" = some d' ∧
      taken.deck = ["birds", "comet"] ++ v.deck ∧ ["birds", "comet"].Perm d'.toTake := by
  intro taken
  obtain ⟨d, hd, hhand, htake⟩ : ∃ d, taken.desk? "player" = some d ∧ d.hand = ["ants"] ∧
      d.toTake = [] := ⟨_, (Option.some_get (by decide +kernel)).symm, by decide +kernel⟩
  obtain ⟨v, hv⟩ : ∃ v, triggerForced scouting.catalog "player" taken = (.ok true, v) :=
    ⟨_, Prod.fst_eq_iff.mp (by decide +kernel)⟩
  have hleft : taken.deck = ["birds", "comet", "dust"] ∧
      (triggerForced scouting.catalog "player" taken).2.deck = ["dust"] := by decide +kernel
  rw [hv] at hleft
  obtain ⟨d', hd', -, -, -, hok⟩ := triggerForced_waiting hv hd
  obtain ⟨f, corporation, item, drawn, -, -, hdeck, hwaits⟩ := hok rfl
  have hdrawn : ["birds", "comet"] = drawn := by
    rw [hleft.1, hleft.2] at hdeck
    exact List.append_cancel_right (show ["birds", "comet"] ++ ["dust"] = _ ++ _ from hdeck)
  subst hdrawn
  refine ⟨d, d', v, hd, hhand, htake, hv, hd', hdeck, ?_⟩
  rcases hwaits with ⟨-, -, hwaits⟩ | ⟨tile, -, -, hnone, -⟩
  · have hperm := hwaits.mpr htake
    rwa [htake] at hperm
  · cases hnone

/-- The card of the start is still on offer when the first action is triggered, and then it is
nowhere. -/
theorem triggerForced_loses : Session.start camp.store "game" false = .ok camp.session ∧
    ∃ made w d v, Log scouting camp made w ∧ w.desk? "player" = some d ∧
      d.forced.map (·.state) = some .pending ∧ d.toTake = ["ants"] ∧
      triggerForced scouting.catalog "player" w = (.ok true, v) ∧
      v.deck = ["dust"] ∧ ∀ e ∈ v.desks, "ants" ∉ e.hand ++ e.played ++ e.toTake := by
  obtain ⟨d, hd, hpending, htake⟩ : ∃ d, scoutsChosen.after.desk? "player" = some d ∧
      d.forced.map (·.state) = some .pending ∧ d.toTake = ["ants"] :=
    ⟨_, (Option.some_get (by decide +kernel)).symm, by decide +kernel⟩
  exact ⟨rfl, _, _, d, _, scoutsChosen_log, hd, hpending, htake,
    Prod.fst_eq_iff.mp (by decide +kernel), by decide +kernel⟩

end Engine

end MarsRules
