import MarsRules.Proofs.Picks
import MarsRules.Proofs.Triggering

/-! Triggering a first action where calls can fail. The cards are drawn, then the selection is written, and
only then the mark that keeps the action from being triggered once more. Nothing puts the first of these
back when a later one fails (`Engine.triggerForced_halts`): the action is still pending, and the next
trigger draws and opens its selection again. -/

namespace MarsRules

theorem Player.putAll_forced {fs : List PlayerField} (h : ∀ f ∈ fs, f.write ≠ .forced) (x : Player) :
    (x.putAll fs).forced = x.forced := by
  induction fs generalizing x with
  | nil => rfl
  | cons f rest ih =>
    obtain ⟨hf, hrest⟩ := List.forall_mem_cons.mp h
    refine (ih hrest _).trans ?_
    cases f <;> first | rfl | exact absurd rfl hf

namespace World

/-- These cards have been drawn off the top of the deck, and nothing else has happened. -/
structure Drawn (drawn : List CardId) (w v : World) : Prop where
  session : v.session = w.session
  records : v.records = w.records
  deck : w.deck = drawn ++ v.deck
  decks : v.store.decks = if drawn = [] then w.store.decks else w.store.decks.put w.game v.deck

theorem Alike.symm {w v : World} (h : Alike w v) : Alike v w :=
  ⟨h.session.symm, h.store.records.symm, h.store.decks.symm⟩

theorem Alike.drawn {w v : World} (h : Alike w v) : Drawn [] w v where
  session := h.session
  records := h.store.records
  deck := (deck_of_decks (congrArg Session.game h.session) h.store.decks).symm
  decks := h.store.decks

/-- The trigger gets as far as what the corporation asks for. -/
structure Asks (catalog : Catalog) (p : PlayerId) (w : World) (x : Player) (f : ForcedAction)
    (corporation : Card) (item : LineItem) : Prop where
  readable : w.store.serves (Read.player : Call) = true
  player : w.player? p = some x
  awaits : x.desk.Awaits catalog f corporation item
  found : w.store.serves (Read.card : Call) = true

/-- A selection can be made up: these cards are drawn for it, and this is the field to write. -/
inductive Selects (p : PlayerId) (source : CardId) (item : LineItem) (w : World) :
    List CardId → PlayerField → Prop
  | draw (kind : item.kind = .cardDraw) (served : w.store.serves (Write.drawCards : Call) = true)
      (there : (w.store.decks.get? w.game).isSome) :
      Selects p source item w (w.deck.take item.amount.toNat) (.drawOffer (some {
        cards := w.deck.take item.amount.toNat
        free := item.amount.toNat
        maxBought := 0
        price := 0
        source }))
  | tile {tile : TileKind} {game : Game} (kind : item.kind = .tilePlacement tile)
      (served : w.store.serves (Read.game : Call) = true) (there : w.records.game? w.game = some game)
      (fits : game.board.legalHexes tile p ≠ []) :
      Selects p source item w [] (.tileOffer (some { tile, hexes := game.board.legalHexes tile p, source }))

section Relations

variable {p : PlayerId} {source : CardId} {item : LineItem} {w v u : World} {drawn : List CardId}
  {field : PlayerField}

theorem Drawn.after (h : Alike w v) (h' : Drawn drawn v u) : Drawn drawn w u where
  session := h'.session.trans h.session
  records := h'.records.trans h.store.records
  deck := h.drawn.deck.trans h'.deck
  decks := by rw [h'.decks, h.store.decks, show v.game = w.game from congrArg Session.game h.session]

theorem Drawn.player? (h : Drawn drawn w v) (p : PlayerId) : v.player? p = w.player? p := by
  unfold World.player?
  rw [h.records, show v.game = w.game from congrArg Session.game h.session]

theorem Selects.write (h : Selects p source item w drawn field) :
    field.write = .drawOffer ∨ field.write = .tileOffer := by
  cases h
  · exact .inl rfl
  · exact .inr rfl

theorem Selects.nodup (h : Selects p source item w drawn field) (forced : Option ForcedAction) :
    ([field, .forced forced].map PlayerField.write).Nodup := by
  rcases h.write with hw | hw <;> simp [hw, show (PlayerField.forced forced).write = .forced from rfl]

theorem Selects.alike (h : Selects p source item w drawn field) (ha : Alike w v)
    (hs : SpendsOnly [(Read.player : Call), (Read.card : Call)] w v) :
    Selects p source item v drawn field := by
  have hg : v.game = w.game := congrArg Session.game ha.session
  cases h with
  | draw kind served there =>
    have hdeck : w.deck = v.deck := ha.drawn.deck
    rw [hdeck]
    refine .draw kind ((hs.serves (by simp)).trans served) ?_
    rwa [hg, ha.store.decks]
  | tile kind served there fits =>
    refine .tile kind ((hs.serves (by simp)).trans served) ?_ fits
    rw [hg, show v.records = w.records from ha.store.records]
    exact there

theorem Selects.unique {drawn' : List CardId} {field' : PlayerField}
    (h : Selects p source item w drawn field) (h' : Selects p source item w drawn' field') :
    drawn' = drawn ∧ field' = field := by
  cases h with
  | draw kind =>
    cases h' with
    | draw => exact ⟨rfl, rfl⟩
    | tile kind' => cases kind.symm.trans kind'
  | tile kind served there fits =>
    cases h' with
    | draw kind' => cases kind.symm.trans kind'
    | tile kind' served' there' =>
      cases kind.symm.trans kind'
      cases there.symm.trans there'
      exact ⟨rfl, rfl⟩

theorem Asks.unique {catalog : Catalog} {x x' : Player} {f f' : ForcedAction} {corporation corporation' : Card}
    {item item' : LineItem} (h : w.Asks catalog p x f corporation item)
    (h' : w.Asks catalog p x' f' corporation' item') :
    x' = x ∧ f' = f ∧ corporation' = corporation ∧ item' = item := by
  obtain rfl := Option.some.inj (h.player.symm.trans h'.player)
  obtain rfl := Option.some.inj (h.awaits.forced.symm.trans h'.awaits.forced)
  obtain rfl := Option.some.inj (h.awaits.found.symm.trans h'.awaits.found)
  obtain rfl := Option.some.inj (h.awaits.output.symm.trans h'.awaits.output)
  exact ⟨rfl, rfl, rfl, rfl⟩

end Relations

section DrawnWritten

variable {p : PlayerId} {w v u : World} {drawn : List CardId} {done : List PlayerField}

theorem Drawn.deck_written (h : Drawn drawn w u) (h' : Written p done u v) :
    w.deck = drawn ++ v.deck := by
  rw [h.deck, deck_of_decks h'.game h'.decks]

theorem Drawn.records_written (h : Drawn drawn w u) (h' : Written p done u v) :
    v.records = w.records.changePlayer w.game p (·.putAll done) := by
  rw [h'.records, h.records, show u.game = w.game from congrArg Session.game h.session]

theorem Drawn.game_written (h : Drawn drawn w u) (h' : Written p done u v) : v.game = w.game :=
  h'.game.trans (congrArg Session.game h.session)

theorem Drawn.player?_written (h : Drawn drawn w u) (h' : Written p done u v) :
    v.player? p = (w.player? p).map (·.putAll done) := by
  unfold World.player?
  rw [h.records_written h', h.game_written h',
    Records.player?_changePlayer fun x hx => (x.putAll_id done).trans hx]

theorem Drawn.player?_written_of_ne (h : Drawn drawn w u) (h' : Written p done u v) {q : PlayerId}
    (hq : q ≠ p) : v.player? q = w.player? q := by
  unfold World.player?
  rw [h.records_written h', h.game_written h',
    Records.player?_changePlayer_of_ne hq fun x hx => (x.putAll_id done).trans hx]

theorem Drawn.forced?_written (h : Drawn drawn w u) (h' : Written p done u v)
    (hdone : ∀ f ∈ done, f.write ≠ .forced) (q : PlayerId) : v.forced? q = w.forced? q := by
  simp only [forced?, desk?_eq]
  by_cases hq : q = p
  · rw [hq, h.player?_written h']
    cases w.player? p with
    | none => rfl
    | some x => exact Player.putAll_forced hdone x
  · rw [h.player?_written_of_ne h' hq]

/-- The records and decks are the same exactly if no card was drawn and nothing new was written. -/
theorem Drawn.same_written_iff (h : Drawn drawn w u) (h' : Written p done u v) :
    (v.records = w.records ∧ v.store.decks = w.store.decks) ↔
      drawn = [] ∧ ∀ x, w.player? p = some x → x.putAll done = x := by
  constructor
  · rintro ⟨hr, hd⟩
    have hdeck := h.deck_written h'
    rw [deck_of_decks (h.game_written h') hd] at hdeck
    refine ⟨by simpa using hdeck, fun x hx => ?_⟩
    have hsame : v.player? p = w.player? p := by
      unfold World.player?
      rw [hr, h.game_written h']
    rw [h.player?_written h', hx] at hsame
    exact Option.some.inj hsame
  · rintro ⟨rfl, hx⟩
    refine ⟨?_, h'.decks.trans h.decks⟩
    rw [h.records_written h', Records.changePlayer_congr hx]
    exact Records.changePlayer_id

end DrawnWritten

/-- A trigger draws cards, or it writes a selection that was not there. -/
def Unsettles (catalog : Catalog) (p : PlayerId) (w : World) : Prop :=
  ∃ x f corporation item drawn field, w.Asks catalog p x f corporation item ∧
    w.Selects p corporation.id item drawn field ∧
      (drawn ≠ [] ∨ w.store.serves field.write = true ∧ field.put x ≠ x)

end World

namespace Engine

open World (Drawn SpendsOnly Written)

variable {α : Type} {catalog : Catalog} {p : PlayerId} {w v u : World} {x : Player} {f : ForcedAction}
  {corporation : Card} {item : LineItem} {drawn : List CardId} {field : PlayerField}

theorem readGame_of_serves {game : Game} (hs : w.store.serves (Read.game : Call) = true)
    (hg : w.records.game? w.game = some game) : ∃ u, readGame w = (.ok game, u) ∧ World.Alike w u ∧
      SpendsOnly [(Read.game : Call)] w u := by
  obtain ⟨u, hu, ha, hs⟩ := onStore_of_serves (fun _ => Store.theGame w.game) hs
  refine ⟨u, (show _ = onStore (Store.readGame w.game) w from rfl).trans (hu.trans ?_), ha, hs⟩
  unfold onStore
  rw [Store.theGame_eq_ok.mpr ⟨(congrArg (·.game? w.game) ha.store.records).trans hg, rfl⟩]

theorem serves_of_readGame {game : Game} (h : readGame w = (.ok game, v)) :
    w.store.serves (Read.game : Call) = true :=
  serves_of_onStore (show onStore (Store.readGame w.game) w = _ from h)

theorem findCard_of_serves {id : CardId} {card : Card} (hs : w.store.serves (Read.card : Call) = true)
    (hc : catalog.find? id = some card) : ∃ u, findCard catalog id w = (.ok card, u) ∧ World.Alike w u ∧
      SpendsOnly [(Read.card : Call)] w u := by
  obtain ⟨u, hu, ha, hs⟩ := onStore_of_serves pure hs
  rw [bind_pure] at hu
  refine ⟨u, (Steps.bind_apply_ok (hu.trans rfl)).trans ?_, ha, hs⟩
  refine ofExcept_eq_ok.mpr ⟨?_, rfl⟩
  unfold Catalog.find
  rw [hc]
  rfl

theorem serves_of_findCard {id : CardId} {card : Card} (h : findCard catalog id w = (.ok card, v)) :
    w.store.serves (Read.card : Call) = true := by
  obtain ⟨_, u, hu, -⟩ := Steps.bind_eq_ok.mp h
  refine serves_of_onStore (k := pure) (a := ()) (v := u) ?_
  rwa [bind_pure]

theorem drawCards_of_serves {n : Nat} (hs : w.store.serves (Write.drawCards : Call) = true)
    (hd : (w.store.decks.get? w.game).isSome) : ∃ u,
      onStore (Store.drawCards w.game n) w = (.ok (w.deck.take n), u) ∧ Drawn (w.deck.take n) w u ∧
        SpendsOnly [(Write.drawCards : Call)] w u := by
  obtain ⟨deck, hd⟩ := Option.isSome_iff_exists.mp hd
  have hdeck : w.deck = deck := by rw [World.deck, Store.deck, hd]; rfl
  let s : Store := (w.store.call (Write.drawCards : Call)).2
  have halike : Store.Alike w.store s := Store.call_alike _ _
  have hthere : s.decks.get? w.game = some deck := halike.decks ▸ hd
  let u : World := { w with store := s.setDeck w.game (deck.drop n) }
  have hleft : u.deck = deck.drop n := by
    show ((s.decks.put w.game (deck.drop n)).get? w.game).getD [] = _
    rw [Table.get?_put_self]
    rfl
  refine ⟨u, ?_, ⟨rfl, halike.records, ?_, ?_⟩, Store.call_spendsOnly _ _⟩
  · unfold onStore Store.drawCards
    rw [Steps.bind_apply_ok (Store.perform_of_serves hs)]
    simp only [Steps.bind_apply, Steps.read_apply, s, hthere, hdeck]
    rfl
  · rw [hleft, hdeck, List.take_append_drop]
  · show s.decks.put w.game (deck.drop n) = _
    rw [hleft, hdeck, halike.decks]
    split
    · next hnone =>
      have hsame : deck.drop n = deck := by
        rw [← List.nil_append (deck.drop n), ← hnone, List.take_append_drop]
      rw [hsame, Table.put_of_get? hd]
    · rfl

theorem drawCards_alike {n : Nat} {stop : Stop}
    (h : onStore (Store.drawCards w.game n) w = (.error stop, v)) : World.Alike w v := by
  obtain ⟨e, t, ht, -, rfl⟩ := onStore_eq_error.mp h
  have hrecords := Store.drawCards_records w.game n w.store
  rw [ht] at hrecords
  exact ⟨rfl, hrecords, (Store.drawCards_error ht).decks not_false⟩

theorem offerForced_of_selects {source : CardId} (h : w.Selects p source item drawn field) :
    ∃ u, offerForced p source item w = update p field u ∧ Drawn drawn w u ∧
      SpendsOnly [(Write.drawCards : Call), (Read.game : Call)] w u := by
  cases h with
  | draw kind served there =>
    obtain ⟨u, hu, hdrawn, hs⟩ := drawCards_of_serves (n := item.amount.toNat) served there
    refine ⟨u, ?_, hdrawn, hs.mono (by simp)⟩
    simp only [offerForced, kind]
    exact Steps.bind_apply_ok hu
  | @tile tile game kind served there fits =>
    obtain ⟨u, hu, ha, hs⟩ := readGame_of_serves served there
    refine ⟨u, ?_, ha.drawn, hs.mono (by simp)⟩
    simp only [offerForced, kind]
    rw [Steps.bind_apply_ok hu]
    simp [fits]

theorem offerForced_of_not_selects {source : CardId} {result : Except Stop Unit}
    (h : ∀ drawn field, ¬ w.Selects p source item drawn field)
    (hv : offerForced p source item w = (result, v)) : World.Alike w v ∧ ∃ stop, result = .error stop := by
  cases kind : item.kind with
  | cardDraw =>
    simp only [offerForced, kind] at hv
    rw [Steps.bind_apply_ok (show gameId w = (.ok w.game, w) from rfl)] at hv
    rcases Steps.bind_cases hv with ⟨stop, hdrawn, rfl⟩ | ⟨cards, u, hdrawn, -⟩
    · exact ⟨drawCards_alike hdrawn, stop, rfl⟩
    · have served : w.store.serves (Write.drawCards : Call) = true :=
        serves_of_onStore (show onStore (Store.drawCards w.game _) w = _ from hdrawn)
      obtain ⟨t, ht, -⟩ := onStore_eq_ok.mp (show onStore (Store.drawCards w.game _) w = _ from hdrawn)
      obtain ⟨deck, hd, -⟩ := Store.drawCards_ok ht
      exact absurd (.draw kind served (Option.isSome_iff_exists.mpr ⟨deck, hd⟩)) (h _ _)
  | tilePlacement tile =>
    simp only [offerForced, kind] at hv
    rcases Steps.bind_cases hv with ⟨stop, hgame, rfl⟩ | ⟨game, u, hgame, hv⟩
    · exact ⟨readGame_alike.apply hgame, stop, rfl⟩
    obtain ⟨hg, ha⟩ := readGame_ok hgame
    split at hv
    · cases hv
      exact ⟨ha, _, rfl⟩
    · next fits =>
      exact absurd (.tile kind (serves_of_readGame hgame) hg (by simpa using fits)) (h _ _)
  | _ =>
    simp only [offerForced, kind] at hv
    cases hv
    exact ⟨Std.Refl.refl _, _, rfl⟩

theorem triggerForced_of_asks (h : w.Asks catalog p x f corporation item) :
    ∃ u, World.Alike w u ∧ SpendsOnly [(Read.player : Call), (Read.card : Call)] w u ∧
      triggerForced catalog p w = (do
        offerForced p corporation.id item
        update p (.forced (some (f.trigger corporation.id)))
        return true : Engine Bool) u := by
  obtain ⟨u, hu, ha, hs⟩ := readPlayer_of_serves h.readable h.player
  have hcard : u.store.serves (Read.card : Call) = true := (hs.serves (by simp)).trans h.found
  obtain ⟨t, ht, ha', hs'⟩ := findCard_of_serves hcard h.awaits.found
  refine ⟨t, Trans.trans ha ha', hs.append hs', ?_⟩
  have hforced : x.forced = some f := h.awaits.forced
  unfold triggerForced
  rw [Steps.bind_apply_ok hu]
  simp only [hforced, h.awaits.pending, ne_eq, not_true_eq_false, if_false]
  rw [Steps.bind_apply_ok ht]
  simp only [h.awaits.output]
  rfl

theorem triggerForced_of_not_asks {result : Except Stop Bool}
    (h : ∀ x f corporation item, ¬ w.Asks catalog p x f corporation item)
    (hv : triggerForced catalog p w = (result, v)) : World.Alike w v ∧ result ≠ .ok true := by
  rcases triggerForced_looks hv with
    ⟨ha, -, hresult⟩ | ⟨x, u, f, corporation, t, item, hread, hcard, hawaits, -⟩
  · exact ⟨ha, hresult⟩
  obtain ⟨hp, -⟩ := readPlayer_ok hread
  obtain ⟨u', hu', -, hs⟩ := readPlayer_of_serves (serves_of_readPlayer hread) hp
  cases hread.symm.trans hu'
  have found : w.store.serves (Read.card : Call) = true :=
    (hs.serves (by simp)).symm.trans (serves_of_findCard hcard)
  exact absurd ⟨serves_of_readPlayer hread, hp, hawaits, found⟩ (h x f corporation item)

/-- A trigger that can make up its selection draws for it, and then writes as far as the writes get
through. -/
theorem triggerForced_of_selects (h : w.Asks catalog p x f corporation item)
    (hselects : w.Selects p corporation.id item drawn field) :
    let writes := [field, .forced (some (f.trigger corporation.id))]
    ∃ u v, Drawn drawn w u ∧ Written p (w.store.reached writes) u v ∧
      ((w.store.reached writes = writes ∧ triggerForced catalog p w = (.ok true, v)) ∨
        (w.store.reached writes ≠ writes ∧
          triggerForced catalog p w = (.error (.refused Store.unavailable true), v))) := by
  intro writes
  obtain ⟨t, ha, hs, hrun⟩ := triggerForced_of_asks h
  obtain ⟨u, hu, hdrawn, hs'⟩ := offerForced_of_selects (hselects.alike ha hs)
  have hdrawn : Drawn drawn w u := hdrawn.after ha
  have hp : u.player? p = some x := (hdrawn.player? p).trans h.player
  obtain ⟨v, hv, hwritten⟩ := updateAll_written (hselects.nodup (some (f.trigger corporation.id))) hp
  have hsame : u.store.reached writes = w.store.reached writes :=
    Store.reached_congr fun f' hf' => (hs.append hs').serves (by
      rcases List.mem_pair.mp hf' with rfl | rfl
      · rcases hselects.write with hw | hw <;> simp [hw]
      · simp [PlayerField.write])
  have hwrites : (do
      update p field
      update p (.forced (some (f.trigger corporation.id)))
      return true : Engine Bool) = updateAll p writes >>= fun _ => pure true := by
    simp [updateAll, writes, List.forM_cons]
  rw [hsame] at hv hwritten
  refine ⟨u, v, hdrawn, hwritten, ?_⟩
  have hrun : triggerForced catalog p w = (updateAll p writes >>= fun _ => pure true) u := by
    rw [← hwrites, hrun, Steps.bind_apply, hu]
    rfl
  rw [hrun]
  by_cases hall : w.store.reached writes = writes
  · rw [if_pos hall] at hv
    exact .inl ⟨hall, Steps.bind_apply_ok hv⟩
  · rw [if_neg hall] at hv
    exact .inr ⟨hall, Steps.bind_apply_error hv⟩

theorem triggerForced_of_not_selects {result : Except Stop Bool}
    (h : ∀ x f corporation item drawn field, w.Asks catalog p x f corporation item →
      ¬ w.Selects p corporation.id item drawn field)
    (hv : triggerForced catalog p w = (result, v)) : World.Alike w v ∧ result ≠ .ok true := by
  by_cases hasks : ∃ x f corporation item, w.Asks catalog p x f corporation item
  · obtain ⟨x, f, corporation, item, hx⟩ := hasks
    obtain ⟨t, ha, hs, hrun⟩ := triggerForced_of_asks hx
    rw [hv] at hrun
    have hnone (drawn : List CardId) (field : PlayerField) : ¬ t.Selects p corporation.id item drawn field :=
      fun hselects => h x f corporation item drawn field hx (hselects.alike ha.symm hs.symm)
    rcases Steps.bind_cases hrun.symm with ⟨stop, hoffer, rfl⟩ | ⟨_, y, hoffer, -⟩
    · exact ⟨Trans.trans ha (offerForced_of_not_selects hnone hoffer).1, nofun⟩
    · obtain ⟨-, stop, hstop⟩ := offerForced_of_not_selects hnone hoffer
      cases hstop
  · exact triggerForced_of_not_asks (by simpa using hasks) hv

/-- A trigger that is refused has drawn and then written, nothing or the selection. -/
theorem triggerForced_refused {e : Refusal} {b : Bool}
    (h : triggerForced catalog p w = (.error (.refused e b), v)) : ∃ drawn done u, Drawn drawn w u ∧
      Written p done u v ∧ (∀ f ∈ done, f.write ≠ .forced) ∧
      (drawn = [] ∧ (∀ x, w.player? p = some x → x.putAll done = x) ↔ ¬ w.Unsettles catalog p) := by
  by_cases hselects : ∃ x f corporation item drawn field, w.Asks catalog p x f corporation item ∧
      w.Selects p corporation.id item drawn field
  · obtain ⟨x, f, corporation, item, drawn, field, hx, hselects⟩ := hselects
    obtain ⟨u, v', hdrawn, hwritten, ⟨-, hv⟩ | ⟨hsome, hv⟩⟩ := triggerForced_of_selects hx hselects
    · cases h.symm.trans hv
    cases h.symm.trans hv
    have hunsettles : w.Unsettles catalog p ↔
        drawn ≠ [] ∨ w.store.serves field.write = true ∧ field.put x ≠ x := by
      refine ⟨?_, fun hmoves => ⟨x, f, corporation, item, drawn, field, hx, hselects, hmoves⟩⟩
      rintro ⟨x', f', corporation', item', drawn', field', hx', hselects', hmoves⟩
      obtain ⟨rfl, rfl, rfl, rfl⟩ := hx.unique hx'
      obtain ⟨rfl, rfl⟩ := hselects.unique hselects'
      exact hmoves
    rw [Store.reached_pair hsome] at hwritten
    refine ⟨drawn, _, u, hdrawn, hwritten, ?_, ?_⟩
    · intro f' hf'
      split at hf'
      · rw [List.mem_singleton.mp hf']
        rcases hselects.write with hw | hw <;> simp [hw]
      · cases hf'
    · rw [hunsettles, not_or, not_not]
      refine and_congr_right fun _ => ?_
      simp only [hx.player, Option.some.injEq, forall_eq']
      cases w.store.serves field.write <;> simp [Player.putAll]
  · have hnone : ∀ x f corporation item drawn field, w.Asks catalog p x f corporation item →
        ¬ w.Selects p corporation.id item drawn field := fun x f corporation item drawn field hx hs =>
      hselects ⟨x, f, corporation, item, drawn, field, hx, hs⟩
    obtain ⟨ha, -⟩ := triggerForced_of_not_selects hnone h
    refine ⟨[], [], v, ha.drawn, (Std.Refl.refl v : World.Alike v v).written p, ?_, ?_, fun _ => ⟨rfl, fun _ _ => rfl⟩⟩
    · exact fun f hf => absurd hf List.not_mem_nil
    · rintro - ⟨x, f, corporation, item, drawn, field, hx, hs, -⟩
      exact hnone _ _ _ _ _ _ hx hs

theorem triggerForced_again {done : List PlayerField} (hdone : ∀ f ∈ done, f.write ≠ .forced)
    (hv : v.player? p = (w.player? p).map (·.putAll done))
    (h : triggerForced catalog p v = (.ok true, u)) :
    ∃ x f corporation item again d', w.player? p = some x ∧ x.desk.Awaits catalog f corporation item ∧
      (x.putAll done).desk.Opens v.deck corporation.id item again d' ∧
      u.desk? p = some { d' with forced := some (f.trigger corporation.id) } ∧
      v.deck = again ++ u.deck := by
  obtain ⟨-, d, f, corporation, item, again, d', rfl, hawaits, hopens, hdeals⟩ :=
    ((triggerForced_cases h).resolve_left fun hidle => hidle.2 rfl).resolve_left
      fun hstop => hstop.1.elim nofun
  obtain ⟨y, hy, rfl⟩ := World.player?_of_desk? hdeals.there
  obtain ⟨x, hx, rfl⟩ := Option.map_eq_some_iff.mp (hv.symm.trans hy)
  have hforced : x.desk.forced = (x.putAll done).desk.forced := (Player.putAll_forced hdone x).symm
  refine ⟨x, f, corporation, item, again, d', hx, ?_, hopens, ?_, hdeals.deck⟩
  · exact ⟨hforced.trans hawaits.forced, hawaits.pending, hawaits.found, hawaits.output⟩
  · exact (hdeals.desk? _).trans (if_pos rfl)

/-- A trigger that is refused has drawn `drawn` and written `done`, nothing or the selection, and the
action is as pending as before. The records and decks are what they were exactly if it did not get as far
as drawing a card or writing a selection that was not there. When the trigger is made again, it draws and
opens its selection once more. -/
theorem triggerForced_halts {e : Refusal} {b : Bool}
    (h : triggerForced catalog p w = (.error (.refused e b), v)) :
    v.session = w.session ∧ (∀ q, v.forced? q = w.forced? q) ∧
      (v.records = w.records ∧ v.store.decks = w.store.decks ↔ ¬ w.Unsettles catalog p) ∧
      ∃ drawn done, w.deck = drawn ++ v.deck ∧
        v.records = w.records.changePlayer w.game p (·.putAll done) ∧
        ∀ outages u, triggerForced catalog p (v.withOutages outages) = (.ok true, u) →
          ∃ x f corporation item again d', w.player? p = some x ∧
            x.desk.Awaits catalog f corporation item ∧
            (x.putAll done).desk.Opens v.deck corporation.id item again d' ∧
            u.desk? p = some { d' with forced := some (f.trigger corporation.id) } ∧
            w.deck = drawn ++ again ++ u.deck := by
  obtain ⟨drawn, done, u, hdrawn, hwritten, hdone, hsame⟩ := triggerForced_refused h
  have hdeck := hdrawn.deck_written hwritten
  have hplayer := hdrawn.player?_written hwritten
  refine ⟨hwritten.session.trans hdrawn.session, hdrawn.forced?_written hwritten hdone,
    (hdrawn.same_written_iff hwritten).trans hsame, drawn, done, hdeck,
    hdrawn.records_written hwritten, fun outages u' hu => ?_⟩
  obtain ⟨x, f, corporation, item, again, d', hx, hawaits, hopens, hopened, hagain⟩ :=
    triggerForced_again (v := v.withOutages outages) hdone hplayer hu
  refine ⟨x, f, corporation, item, again, d', hx, hawaits, hopens, hopened, ?_⟩
  rw [hdeck, List.append_assoc]
  exact congrArg (drawn ++ ·) hagain

/-- The corporation is chosen and its first action waits, while this call fails once. -/
def waiting (failing : Write) : World where
  store := {
    games := [("game", { id := "game", turn := some "player" })]
    rosters := [("game", [{ Player.named "player" with
      corporation := some "scouts"
      forced := scouts.forcedAction? }])]
    decks := [("game", ["ants", "birds", "comet", "dust"])]
    outages := fun c => if c = .write failing then [{ times := 1 }] else [] }
  session := { game := "game" }

theorem triggerForced_halts_scouts :
    let w := waiting .forced
    let after := triggerForced scouting.catalog "player" w
    after.1 = .error (.refused Store.unavailable true) ∧ w.Unsettles scouting.catalog "player" ∧
      ¬ (after.2.records = w.records ∧ after.2.store.decks = w.store.decks) ∧
      after.2.forced? "player" = scouts.forcedAction? := by
  intro w after
  have h : after.1 = .error (.refused Store.unavailable true) := rfl
  have hunsettles : w.Unsettles scouting.catalog "player" := by
    refine ⟨_, _, scouts, _, _, _, ⟨rfl, rfl, ⟨rfl, rfl, rfl, rfl⟩, rfl⟩, .draw rfl rfl rfl, .inl ?_⟩
    decide
  obtain ⟨-, hforced, hsame, -⟩ := triggerForced_halts (Prod.ext h rfl)
  exact ⟨h, hunsettles, mt hsame.mp (not_not.mpr hunsettles), hforced "player"⟩

/-- The cards on offer and those in the deck, once a trigger has been refused and once it has been made
again. -/
def offersOfTwo (failing : Write) : List (List CardId × List CardId) :=
  let refused := triggerForced scouting.catalog "player" (waiting failing)
  let again := triggerForced scouting.catalog "player" refused.2
  match refused.1, again.1 with
  | .error _, .ok true =>
    [refused.2, again.2].map fun w => ((w.desk? "player").elim [] (·.toTake), w.deck)
  | _, _ => []

/-- A first action that draws two cards takes four off the deck, if the selection or the mark could not be
written at first. -/
theorem triggerForced_draws_again :
    offersOfTwo .drawCards =
        [([], ["ants", "birds", "comet", "dust"]), (["ants", "birds"], ["comet", "dust"])] ∧
      offersOfTwo .drawOffer = [([], ["comet", "dust"]), (["comet", "dust"], [])] ∧
      offersOfTwo .forced = [(["ants", "birds"], ["comet", "dust"]), (["comet", "dust"], [])] := by
  decide +kernel

end Engine

end MarsRules
