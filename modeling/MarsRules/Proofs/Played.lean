import Mathlib.Data.Prod.Basic
import MarsRules.Proofs.Amounts
import MarsRules.Proofs.Atomicity
import MarsRules.Proofs.Position

/-! What a play that succeeds has committed when its events are announced. Every field is given by
the card and the request, each with a formula of its own; a counter is the sum of what is taken from
it and given to it, as far as 32 bits keep the sum. -/

namespace MarsRules

/-- Where a parameter stands after some steps, in the range of the rules. -/
def Rules.moved (rules : Rules) (q : GlobalParameter) (before steps : Int) : Int :=
  let range := rules.range q
  max range.min (min range.max (saturateInt32 (before + saturateInt32 (steps * range.step))))

/-- The player's record after a play. -/
structure PlayedRecord (rules : Rules) (game : Game) (deck : List CardId) (player : Player)
    (card : Card) (r : PlayRequest) (parameters : Parameters) (after : Player) : Prop where
  id : after.id = player.id
  name : after.name = player.name
  corporation : after.corporation = player.corporation
  forced : after.forced = player.forced
  resources : ∀ c, AddsUp (player.resources.get c)
    (-r.payment.taken c - amountOf (.resource c) (card.spends r.choice) +
      sumOf (.resource c) (card.gains r.choice)) (after.resources.get c)
  production : ∀ c, AddsUp (player.production.get c)
    (sumOf (.production c) (card.gains r.choice)) (after.production.get c)
  rating : AddsUp player.rating (sumOf .terraformRating (card.gains r.choice) +
    if rules.ratingPerStep then ParameterChange.gained rules game.parameters parameters else 0)
    after.rating
  points : AddsUp player.points
    (total ((card.victoryPoints.filter (·.kind == .fixed)).map (·.amount))) after.points
  hand : after.hand = player.hand.filter (· ≠ card.id)
  played : after.played = player.played ++ [card.id]
  storage : ∀ c,
    let tokens := tokensOf { card := card.id, played := after.played, target := r.target }
      (card.gains r.choice)
    let start := if c = card.id then card.storage.map (·.starting) <|> player.storage.get? c
      else player.storage.get? c
    ∃ n, AddsUp (start.getD 0) (total ((tokens.filter (·.1 == c)).map (·.2))) n ∧
      after.storage.get? c = if c ∈ tokens.map (·.1) then some n else start
  actions : after.actions = player.actions ++ card.actions
  effects : after.effects = player.effects ++ card.effects
  queue : after.queue =
    (player.withTiles game.board card.id (tilesOf (card.gains r.choice))).queue
  tileOffer : after.tileOffer =
    (player.withTiles game.board card.id (tilesOf (card.gains r.choice))).tileOffer
  drawOffer : after.drawOffer =
    let n := saturateNat32 (drawsOf (card.gains r.choice))
    (player.withDraw card.id (deck.take n) n).drawOffer

/-- The world after a play of a card, its events not announced yet. -/
structure Played (rules : Rules) (w : World) (game : Game) (player : Player) (card : Card)
    (r : PlayRequest) (parameters : Parameters) (after : Player) (v : World) : Prop where
  moved : ∀ q, parameters.get q =
    let steps := netSteps q (card.gains r.choice)
    if steps = 0 then game.parameters.get q else rules.moved q (game.parameters.get q) steps
  record : PlayedRecord rules game (w.store.deck w.game) player card r parameters after
  /-- Nothing but the parameters of the game and the record of the player is different. -/
  records : v.records = (w.records.changeGame w.game ({ · with parameters })).changePlayer w.game
    player.id fun _ => after
  decks : v.store.decks =
    let n := saturateNat32 (drawsOf (card.gains r.choice))
    if n = 0 then w.store.decks else w.store.decks.put w.game ((w.store.deck w.game).drop n)
  /-- The effects that wait for an event are subscribed, in order. -/
  session : v.session = (card.effects.filter (·.isPassive)).foldl
    (fun s e => (s.subscribe player.id e).2) w.session

namespace Plan

variable {w v : World} {x : Position} {plan : Plan} {game : Game} {rules : Rules}

theorem reached_of_isEmpty (h : plan.isEmpty = true) (hc : x.changes = []) (board : Board) :
    plan.reached rules w board x = x := by
  have hadds := addTo_of_isEmpty h x.player
  simp only [isEmpty, Bool.and_eq_true, List.isEmpty_iff, beq_iff_eq, List.all_eq_true] at h
  obtain ⟨⟨⟨⟨⟨⟨⟨⟨-, heffects⟩, -⟩, -⟩, -⟩, -⟩, htiles⟩, hparameters⟩, hdraw⟩ := h
  have hsteps : ParameterChange.ofSteps rules w.parameters plan.parameters = [] :=
    ParameterChange.ofSteps_eq_nil hparameters
  obtain ⟨player, changes, session, decks⟩ := x
  obtain rfl : changes = [] := hc
  simp only [reached, record, hadds, heffects, htiles, hdraw, hsteps, ParameterChange.rating_nil,
    Player.withTiles, Player.withDraw, List.filter_nil, List.foldl_nil, addInt32_zero, if_true]

end Plan

section Formulas

variable {rules : Rules} {w v : World} {game : Game} {player : Player} {card : Card} {r : PlayRequest}
  {paid : ResourceSet} {plan : Plan} {scope : Scope} {items : List LineItem}

theorem Card.get?_started (card : Card) (storage : Table Int) (c : CardId) :
    (card.storage.elim storage fun t => storage.put card.id t.starting).get? c =
      if c = card.id then card.storage.map (·.starting) <|> storage.get? c else storage.get? c := by
  cases card.storage <;> by_cases hc : c = card.id <;> simp [hc]

/-- What the card and the request make of the record before the card itself does anything. -/
def paidRecord (player : Player) (card : Card) (choice : Option Nat) (paid : ResourceSet) : Player :=
  { player with
    resources := paid + card.immediateInputs choice
    hand := player.hand.filter (· ≠ card.id)
    played := player.played ++ [card.id]
    storage := card.storage.elim player.storage fun t => player.storage.put card.id t.starting }

theorem of?_eq_moved {q : GlobalParameter} {before steps : Int}
    (h : (rules.range q).min ≤ (rules.range q).max) :
    ParameterChange.of? rules q before steps = some ⟨q, before, rules.moved q before steps⟩ := by
  simp [ParameterChange.of?, ParameterRange.clamp?, h, Rules.moved]

theorem mem_of_netSteps {items : List LineItem} {q : GlobalParameter} (h : netSteps q items ≠ 0) :
    (q, netSteps q items) ∈ Plan.addAllSteps (stepsOf items) [] := by
  have hl : (Plan.addAllSteps (stepsOf items) []).lookup q =
      sumInt32 (((stepsOf items).filter (·.1 == q)).map (·.2)) := Plan.lookup_addAllSteps q _ []
  cases hs : sumInt32 (((stepsOf items).filter (·.1 == q)).map (·.2)) with
  | none => simp [netSteps, hs] at h
  | some n =>
    rw [hs] at hl
    have hn : netSteps q items = n := by simp [netSteps, hs]
    obtain ⟨before, behind, hsplit, -⟩ := List.lookup_eq_some_iff.mp hl
    simp [hsplit, hn]

theorem moved_of_ofSteps {items : List LineItem} {first : Parameters}
    (hadmits : rules.Admits (Plan.addAllSteps (stepsOf items) [])) (q : GlobalParameter) :
    (first.after (ParameterChange.ofSteps rules first (Plan.addAllSteps (stepsOf items) []))).get q =
      if netSteps q items = 0 then first.get q else rules.moved q (first.get q) (netSteps q items) := by
  have hnodup := Plan.nodup_addAllSteps (stepsOf items) (l := []) List.nodup_nil
  by_cases hc : ∃ c ∈ ParameterChange.ofSteps rules first (Plan.addAllSteps (stepsOf items) []),
      c.parameter = q
  · obtain ⟨c, hc, rfl⟩ := hc
    rw [Parameters.get_after_of_mem (ParameterChange.ofSteps_nodup hnodup) hc]
    obtain ⟨n, hn, hm, ho, -⟩ := ParameterChange.mem_ofSteps.mp hc
    obtain rfl := Plan.eq_netSteps hm
    rw [if_neg hn]
    rw [of?_eq_moved (hadmits _ hm hn)] at ho
    exact (congrArg ParameterChange.after (Option.some.inj ho)).symm
  · have hne : ∀ c ∈ ParameterChange.ofSteps rules first (Plan.addAllSteps (stepsOf items) []),
        c.parameter ≠ q := fun c hm hq => hc ⟨c, hm, hq⟩
    rw [Parameters.get_after_of_forall_ne hne]
    split
    · rfl
    · next hn =>
      -- the parameter is moved to where it stands
      have hm := mem_of_netSteps hn
      let c : ParameterChange := ⟨q, first.get q, rules.moved q (first.get q) (netSteps q items)⟩
      have ho : ParameterChange.of? rules q (first.get q) (netSteps q items) = some c :=
        of?_eq_moved (hadmits _ hm hn)
      refine Decidable.byContradiction fun hmoved =>
        hne c (ParameterChange.mem_ofSteps.mpr ⟨_, hn, hm, ho, ?_⟩) rfl
      simpa [c, ParameterChange.isChange] using hmoved

/-- The pool that the payment and the inputs leave, before the card gives anything. -/
theorem paidRecord_resources (hpaid : r.payment.takeFrom player.resources = .ok paid)
    (c : BaseResource) : AddsUp (player.resources.get c)
      (-r.payment.taken c - amountOf (.resource c) (card.spends r.choice))
      ((paidRecord player card r.choice paid).resources.get c) := by
  show AddsUp _ _ ((paid + card.immediateInputs r.choice).get c)
  rw [ResourceSet.get_add, Card.get_immediateInputs]
  exact (Payment.get_takeFrom hpaid c).trans (.add_wrap _ _)

theorem Plan.Gains.addTo {scope : Scope} {id : PlayerId} {source : CardId} {items : List LineItem}
    {actions : List CardAction} {effects : List CardEffect} {plan : Plan}
    (h : Gains scope { player := id, source } items actions effects plan) (y : Player) :
    (∀ c, AddsUp (y.resources.get c) (sumOf (.resource c) items) ((plan.addTo y).resources.get c)) ∧
    (∀ c, AddsUp (y.production.get c) (sumOf (.production c) items)
      ((plan.addTo y).production.get c)) ∧
    AddsUp y.rating (sumOf .terraformRating items) (plan.addTo y).rating := by
  refine ⟨fun c => ?_, fun c => ?_, ?_⟩
  · show AddsUp _ _ ((y.resources + plan.resources).get c)
    rw [ResourceSet.get_add, h.fresh_resources]
    exact .add_wrap _ _
  · show AddsUp _ _ ((y.production + plan.production).get c)
    rw [ResourceSet.get_add, h.fresh_production]
    exact .add_wrap _ _
  · show AddsUp _ _ (addInt32 y.rating plan.rating)
    rw [h.fresh_rating]
    exact .add_wrap _ _

theorem storage_of_plan (hplan : plan.storage = tokensOf scope items)
    (y : Player) (c : CardId) : ∃ n, AddsUp ((y.storage.get? c).getD 0)
        (total (((tokensOf scope items).filter (·.1 == c)).map (·.2))) n ∧
      (plan.addTo y).storage.get? c =
        if c ∈ (tokensOf scope items).map (·.1) then some n else y.storage.get? c :=
  hplan ▸ Plan.get?_addTokens y.storage plan.storage c

theorem Plan.Gains.addTo_rating {scope : Scope} {id : PlayerId} {source : CardId}
    {items : List LineItem} {actions : List CardAction} {effects : List CardEffect} {plan : Plan}
    (h : Gains scope { player := id, source } items actions effects plan) (rules : Rules)
    (first : Parameters) (y : Player) :
    let changes := ParameterChange.ofSteps rules first plan.parameters
    AddsUp y.rating (sumOf .terraformRating items +
        if rules.ratingPerStep then ParameterChange.gained rules first (first.after changes) else 0)
      (addInt32 (plan.addTo y).rating (ParameterChange.rating rules changes)) := by
  have hparameters : plan.parameters = Plan.addAllSteps (stepsOf items) [] := h.parameters
  have hnodup : (plan.parameters.map (·.1)).Nodup :=
    hparameters ▸ Plan.nodup_addAllSteps _ (l := []) List.nodup_nil
  intro changes
  rw [← ParameterChange.rating_ofSteps rules _ hnodup]
  exact (h.addTo y).2.2.trans (.add _ _)

theorem paidRecord_withTiles (player : Player) (card : Card) (choice : Option Nat) (paid : ResourceSet)
    (board : Board) (source : String) (tiles : List TileKind) :
    ((paidRecord player card choice paid).withTiles board source tiles).queue =
        (player.withTiles board source tiles).queue ∧
      ((paidRecord player card choice paid).withTiles board source tiles).tileOffer =
        (player.withTiles board source tiles).tileOffer := by
  rw [Player.withTiles_eq (x := player) (y := paidRecord player card choice paid) rfl rfl rfl]
  exact ⟨rfl, rfl⟩

theorem paidRecord_withDraw (player : Player) (card : Card) (choice : Option Nat) (paid : ResourceSet)
    (source : String) (cards : List CardId) (n : Nat) :
    ((paidRecord player card choice paid).withDraw source cards n).drawOffer =
      (player.withDraw source cards n).drawOffer := by
  rw [Player.withDraw_eq (x := player) (y := paidRecord player card choice paid) rfl]

theorem playedRecord_of_plan (rules : Rules)
    (hplan : Plan.ofCard card (paidRecord player card r.choice paid) r.choice r.target = .ok plan)
    (hpaid : r.payment.takeFrom player.resources = .ok paid) (hg : w.records.game? w.game = some game) :
    let x := plan.reached rules w game.board
      ⟨paidRecord player card r.choice paid, [], w.session, w.store.decks⟩
    PlayedRecord rules game (w.store.deck w.game) player card r (game.parameters.after x.changes)
      x.player := by
  obtain ⟨hgains, hpoints⟩ := Plan.ofCard_gains hplan
  have hw : w.parameters = game.parameters := by simp [World.parameters, hg]
  obtain ⟨hresources, hproduction, -⟩ := hgains.addTo (paidRecord player card r.choice paid)
  obtain ⟨hqueue, hoffer⟩ := paidRecord_withTiles player card r.choice paid game.board card.id
    (tilesOf (card.gains r.choice))
  intro x
  have hx : x.player = _ := Plan.reached_player plan rules w game.board _
  have hchanges : x.changes = ParameterChange.ofSteps rules game.parameters plan.parameters := by
    rw [← hw]; rfl
  rw [hx, hgains.source, hgains.tiles, hgains.fresh_draw, hchanges, hw]
  exact {
    id := rfl
    name := rfl
    corporation := rfl
    forced := rfl
    resources := fun c => (paidRecord_resources hpaid c).trans (hresources c)
    production := hproduction
    rating := hgains.addTo_rating rules game.parameters (paidRecord player card r.choice paid)
    points := by
      show AddsUp _ _ (addInt32 player.points plan.points)
      rw [hpoints]
      exact .add_wrap _ _
    hand := rfl
    played := rfl
    storage := fun c => by
      have := storage_of_plan hgains.storage (paidRecord player card r.choice paid) c
      rwa [paidRecord, card.get?_started] at this
    actions := congrArg (player.actions ++ ·) hgains.actions
    effects := congrArg (player.effects ++ ·) hgains.effects
    queue := hqueue
    tileOffer := hoffer
    drawOffer := paidRecord_withDraw .. }

theorem played_of_reached (hplan : Plan.ofCard card (paidRecord player card r.choice paid) r.choice
      r.target = .ok plan) (hpaid : r.payment.takeFrom player.resources = .ok paid)
    (hg : w.records.game? w.game = some game) (hadmits : rules.Admits plan.parameters)
    (hx : w.Reached (plan.reached rules w game.board
      ⟨paidRecord player card r.choice paid, [], w.session, w.store.decks⟩) v) :
    ∃ parameters after, Played rules w game player card r parameters after v := by
  have hgains := (Plan.ofCard_gains hplan).1
  have hw : w.parameters = game.parameters := by simp [World.parameters, hg]
  have hparameters : plan.parameters = Plan.addAllSteps (stepsOf (card.gains r.choice)) [] :=
    hgains.parameters
  have hdraw := hgains.fresh_draw
  have heffects : plan.effects = card.effects := hgains.effects
  have hplayer : plan.player = player.id := hgains.player
  have hrecord := playedRecord_of_plan rules hplan hpaid hg
  refine ⟨_, _, ?_, hrecord, ?_, ?_, ?_⟩
  · intro q
    show (game.parameters.after (ParameterChange.ofSteps rules w.parameters plan.parameters)).get q = _
    rw [hw, hparameters]
    exact moved_of_ofSteps (hparameters ▸ hadmits) q
  · rw [hx.records, hrecord.id]
    congr 1
    refine Records.changeGame_congr fun g hgame => ?_
    obtain rfl : game = g := Option.some.inj (hg.symm.trans hgame)
    rfl
  · rw [hx.decks, ← hdraw]
    rfl
  · rw [hx.session]
    show (plan.effects.filter (·.isPassive)).foldl
      (fun s e => (s.subscribe plan.player e).2) w.session = _
    rw [heffects, hplayer]

theorem Played.of_alike {u : World} {parameters : Parameters} {after : Player} (ha : World.Alike w u)
    (h : Played rules u game player card r parameters after v) :
    Played rules w game player card r parameters after v := by
  have hdeck : u.store.deck u.game = w.store.deck w.game := by
    rw [World.game, ha.session, Store.deck, ha.store.decks]; rfl
  exact {
    moved := h.moved
    record := hdeck ▸ h.record
    records := by
      rw [h.records, World.game, ha.session, show u.records = w.records from ha.store.records]; rfl
    decks := by rw [h.decks, hdeck, ha.store.decks, World.game, ha.session]; rfl
    session := by rw [h.session, ha.session] }

/-- Everything that a play is checked for. -/
structure Card.Playable (card : Card) (book : Rulebook) (game : Game) (player : Player) (r : PlayRequest)
    (paid : ResourceSet) : Prop where
  hand : card.id ∈ player.hand
  requirements : card.checkRequirements book.catalog book.rules game player = .ok ()
  choice : checkChoice card.choicesAtPlay r.choice = .ok ()
  payment : r.payment.check book.rules (card.price player) player.resources = .ok ()
  taken : r.payment.takeFrom player.resources = .ok paid
  costs : card.checkCosts r.choice paid = .ok ()
  floors : checkProductionFloors book.rules player.production (card.gains r.choice) = .ok ()
  planned : ∃ plan, Plan.ofCard card (paidRecord player card r.choice paid) r.choice r.target = .ok plan

theorem Card.checkPlay_ok {book : Rulebook} (h : card.checkPlay book game player r = .ok paid) :
    card.Playable book game player r paid := by
  unfold Card.checkPlay at h
  split at h
  · cases h
  · next hhand =>
    obtain ⟨_, hrequirements, h⟩ := except_bind_eq_ok.mp h
    obtain ⟨_, hchoice, h⟩ := except_bind_eq_ok.mp h
    obtain ⟨_, hpayment, h⟩ := except_bind_eq_ok.mp h
    obtain ⟨left, hleft, h⟩ := except_bind_eq_ok.mp h
    obtain ⟨_, hcosts, h⟩ := except_bind_eq_ok.mp h
    obtain ⟨_, hfloors, h⟩ := except_bind_eq_ok.mp h
    obtain ⟨plan, hplan, h⟩ := except_bind_eq_ok.mp h
    cases h
    -- planning goes by nothing of the record that paying changes
    exact ⟨by simpa using hhand, hrequirements, hchoice, hpayment, hleft, hcosts, hfloors, plan, hplan⟩

end Formulas

namespace Engine

variable {book : Rulebook} {p : PlayerId} {r : PlayRequest} {w v u : World} {events : List Event}

theorem commitCard_reached {x : Position} {card : Card} {choice : Option Nat} {target : Option CardId}
    {rules : Rules} {board : Board}
    (h : commitCard rules p card choice target v = (.ok events, u)) (hx : w.Reached x v)
    (hp : p = x.player.id) (hc : x.changes = []) (hb : w.PlaysOn board) :
    ∃ plan, Plan.ofCard card x.player choice target = .ok plan ∧ rules.Admits plan.parameters ∧
      w.Reached (plan.reached rules w board x) u := by
  obtain ⟨player, v₁, hplayer, h⟩ := Steps.bind_eq_ok.mp h
  obtain ⟨hplayer, ha⟩ := readPlayer_ok hplayer
  obtain rfl : x.player = player := Option.some.inj (hx.player?.symm.trans (hp ▸ hplayer))
  have hx := hx.alike ha
  obtain ⟨plan, v₂, hplan, h⟩ := Steps.bind_eq_ok.mp h
  obtain ⟨hof, rfl⟩ := ofExcept_eq_ok.mp hplan
  refine ⟨plan, hof, ?_⟩
  split at h
  · next hempty =>
    obtain ⟨-, rfl⟩ := Steps.pure_eq_ok.mp h
    rw [Plan.reached_of_isEmpty hempty hc]
    refine ⟨fun step hs hn => absurd ?_ hn, hx⟩
    simp only [Plan.isEmpty, Bool.and_eq_true, List.all_eq_true] at hempty
    simpa using hempty.1.2 step hs
  · obtain ⟨changes, v₃, hwrite, h⟩ := Steps.bind_eq_ok.mp h
    obtain ⟨noted, hwrite⟩ := transact_ok hwrite
    obtain ⟨g, v₄, hgame, h⟩ := Steps.bind_eq_ok.mp h
    cases hgame
    obtain ⟨-, rfl⟩ := Steps.pure_eq_ok.mp h
    have hgains := (Plan.ofCard_gains hof).1
    exact Plan.write_reached hwrite hx hgains.player hgains.used hc hb

theorem writePaid_reached {player : Player} {card : Card} {paid : ResourceSet}
    {s : World × List Change} (h : writePaid player card r paid (w, []) = (.ok (), s))
    (hp : w.player? player.id = some player) :
    w.Reached ⟨paidRecord player card r.choice paid, [], w.session, w.store.decks⟩ s.1 := by
  obtain ⟨_, s₁, hpool, h⟩ := Steps.bind_eq_ok.mp h
  obtain ⟨_, s₂, hhand, h⟩ := Steps.bind_eq_ok.mp h
  obtain ⟨_, s₃, hplayed, htokens⟩ := Steps.bind_eq_ok.mp h
  have h₁ := Noted.when_overwrite_reached hpool (World.Reached.start hp) rfl fun hc => by
    have : paid + card.immediateInputs r.choice = player.resources := by simpa using hc
    simp [PlayerField.put, this]
  have h₂ := Noted.overwrite_reached hhand h₁ rfl
  have h₃ := Noted.overwrite_reached hplayed h₂ rfl
  unfold startTokens at htokens
  unfold paidRecord
  cases hs : card.storage with
  | none =>
    simp only [hs] at htokens
    obtain ⟨-, rfl⟩ := Steps.pure_eq_ok.mp htokens
    exact h₃
  | some tokens =>
    simp only [hs] at htokens
    exact Noted.overwrite_reached htokens h₃ rfl

theorem writePlay_reached {player : Player} {card : Card} {paid : ResourceSet} {rules : Rules}
    {game : Game} {noted : List Change}
    (h : writePlay rules player card r paid (w, []) = (.ok events, v, noted))
    (hp : w.player? player.id = some player) (hg : w.records.game? w.game = some game) :
    ∃ plan, Plan.ofCard card (paidRecord player card r.choice paid) r.choice r.target = .ok plan ∧
      rules.Admits plan.parameters ∧ w.Reached (plan.reached rules w game.board
        ⟨paidRecord player card r.choice paid, [], w.session, w.store.decks⟩) v := by
  rw [writePlay_eq] at h
  obtain ⟨_, s, hpaid, h⟩ := Steps.bind_eq_ok.mp h
  obtain ⟨u, hcard, hu⟩ := Noted.ofEngine_eq_ok.mp (show Noted.ofEngine _ (s.1, s.2) = _ from h)
  obtain ⟨rfl, -⟩ := Prod.mk.inj hu
  have hreached := commitCard_reached hcard (writePaid_reached hpaid hp) rfl rfl (.of_game? hg)
  exact hreached

theorem checkPlay_checked {player : Player} {card : Card} {paid : ResourceSet}
    (h : checkPlay book p r w = (.ok (player, card, paid), v)) :
    ∃ game, card.checkPlay book game player r = .ok paid := by
  obtain ⟨game, w₁, -, h⟩ := Steps.bind_eq_ok.mp h
  obtain ⟨player', w₂, -, h⟩ := Steps.bind_eq_ok.mp h
  obtain ⟨card', w₃, -, h⟩ := Steps.bind_eq_ok.mp h
  obtain ⟨paid', w₄, hpaid, h⟩ := Steps.bind_eq_ok.mp h
  obtain ⟨he, -⟩ := Steps.pure_eq_ok.mp h
  cases he
  exact ⟨game, (ofExcept_eq_ok.mp hpaid).1⟩

theorem checkPlay_ok {player : Player} {card : Card} {paid : ResourceSet}
    (h : checkPlay book p r w = (.ok (player, card, paid), v)) :
    World.Alike w v ∧ (∃ game, w.records.game? w.game = some game) ∧ w.player? p = some player ∧
      book.catalog.find? r.card = some card ∧ r.payment.takeFrom player.resources = .ok paid := by
  have ha := checkPlay_alike book p r w
  rw [h] at ha
  have hp := (ha.player? p).symm.trans (checkPlay_player? h)
  obtain ⟨game, w₁, hgame, h⟩ := Steps.bind_eq_ok.mp h
  obtain ⟨player', w₂, hplayer, h⟩ := Steps.bind_eq_ok.mp h
  obtain ⟨card', w₃, hcard, h⟩ := Steps.bind_eq_ok.mp h
  obtain ⟨paid', w₄, hpaid, h⟩ := Steps.bind_eq_ok.mp h
  obtain ⟨he, -⟩ := Steps.pure_eq_ok.mp h
  cases he
  obtain ⟨hpaid, -⟩ := ofExcept_eq_ok.mp hpaid
  exact ⟨ha, ⟨game, (readGame_ok hgame).1⟩, hp, findCard_ok hcard, (Card.checkPlay_ok hpaid).taken⟩

theorem commitPlay_planned (h : commitPlay book p r w = (.ok events, v)) :
    ∃ game player card paid plan w₁, World.Alike w w₁ ∧ w₁.records.game? w₁.game = some game ∧
      w.player? p = some player ∧ book.catalog.find? r.card = some card ∧
      r.payment.takeFrom player.resources = .ok paid ∧
      Plan.ofCard card (paidRecord player card r.choice paid) r.choice r.target = .ok plan ∧
      book.rules.Admits plan.parameters ∧
      w₁.Reached (plan.reached book.rules w₁ game.board
        ⟨paidRecord player card r.choice paid, [], w₁.session, w₁.store.decks⟩) v := by
  obtain ⟨⟨player, card, paid⟩, w₁, hcheck, h⟩ := Steps.bind_eq_ok.mp h
  obtain ⟨written, w₂, hwrite, h⟩ := Steps.bind_eq_ok.mp h
  obtain ⟨noted, hwrite⟩ := transact_ok hwrite
  obtain ⟨g, w₃, hgame, h⟩ := Steps.bind_eq_ok.mp h
  cases hgame
  obtain ⟨-, rfl⟩ := Steps.pure_eq_ok.mp h
  obtain ⟨ha, ⟨game, hg⟩, hp, hcard, hpaid⟩ := checkPlay_ok hcheck
  obtain rfl := World.player?_id hp
  have hg₁ : w₁.records.game? w₁.game = some game := by
    rw [show w₁.records = w.records from ha.store.records, World.game, ha.session]; exact hg
  obtain ⟨plan, hplan, hadmits, hreached⟩ := writePlay_reached hwrite ((ha.player? _).trans hp) hg₁
  exact ⟨game, player, card, paid, plan, w₁, ha, hg₁, hp, hcard, hpaid, hplan, hadmits, hreached⟩

theorem commitPlay_played (h : commitPlay book p r w = (.ok events, v)) :
    ∃ game player card parameters after, w.records.game? w.game = some game ∧
      w.player? p = some player ∧ book.catalog.find? r.card = some card ∧
      Played book.rules w game player card r parameters after v := by
  obtain ⟨game, player, card, paid, plan, w₁, ha, hg, hp, hcard, hpaid, hplan, hadmits, hreached⟩ :=
    commitPlay_planned h
  obtain ⟨parameters, after, hplayed⟩ := played_of_reached hplan hpaid hg hadmits hreached
  have hgame : w.records.game? w.game = some game := by
    rw [← show w₁.records = w.records from ha.store.records, World.game, ← ha.session]; exact hg
  exact ⟨game, player, card, parameters, after, hgame, hp, hcard, hplayed.of_alike ha⟩

/-- A play that is committed has passed its checks, for the same player and the same card. -/
theorem commitPlay_checked (h : commitPlay book p r w = (.ok events, v)) :
    ∃ game player card paid parameters after w₁,
      checkPlay book p r w = (.ok (player, card, paid), w₁) ∧ w.records.game? w.game = some game ∧
      w.player? p = some player ∧ book.catalog.find? r.card = some card ∧
      Played book.rules w game player card r parameters after v := by
  obtain ⟨⟨player, card, paid⟩, w₁, hcheck, -⟩ := Steps.bind_eq_ok.mp h
  obtain ⟨-, -, hp, hcard, -⟩ := checkPlay_ok hcheck
  obtain ⟨game, player', card', parameters, after, hgame, hp', hcard', hplayed⟩ := commitPlay_played h
  obtain rfl := Option.some.inj (hp.symm.trans hp')
  obtain rfl := Option.some.inj (hcard.symm.trans hcard')
  exact ⟨game, player, card, paid, parameters, after, w₁, hcheck, hgame, hp, hcard, hplayed⟩

/-- A play that succeeds has committed what the card gives and takes before its events are announced
to anyone. -/
theorem play_commits (h : play book p r w = (.ok (), u)) :
    ∃ game player card parameters after events v, w.records.game? w.game = some game ∧
      w.player? p = some player ∧ book.catalog.find? r.card = some card ∧
      commitPlay book p r w = (.ok events, v) ∧
      Played book.rules w game player card r parameters after v ∧
      announce book events v = (.ok (), u) := by
  obtain ⟨events, v, hv, hu⟩ := Steps.bind_eq_ok.mp h
  obtain ⟨game, player, card, parameters, after, hg, hp, hc, hplayed⟩ := commitPlay_played hv
  exact ⟨game, player, card, parameters, after, events, v, hg, hp, hc, hv, hplayed, hu⟩

deriving instance DecidableEq for Except

/-- A card with a behavior of every shape. -/
def harvest : Card where
  id := "harvest"
  name := "Harvest"
  type := .active
  cost := 10
  tags := [.building]
  behaviors := [
    { triggers := [{ type := .auto }]
      inputs := [{ kind := .resource .heat, amount := 2 }]
      outputs := [
        { kind := .production .plants, amount := 1 },
        { kind := .globalParameter .oxygen, amount := 2 },
        { kind := .tilePlacement .ocean, amount := 1 },
        { kind := .resource .plants, amount := -3, target := some .anyPlayer },
        { kind := .cardDraw, amount := 1 }]
      choices := [{ outputs := [{ kind := .cardStorage .microbes, amount := 2 }] }] },
    .manual [] [{ kind := .cardStorage .microbes, amount := 1 }],
    .passive { kind := .oxygenRaise } [{ kind := .resource .credits, amount := 1 }]]
  victoryPoints := [{ kind := .fixed, amount := 1 }]
  storage := some { kind := .cardStorage .microbes, starting := 1 }

/-- A card whose steps do not fit 32 bits on the way to their sum. -/
def surge : Card where
  id := "surge"
  name := "Surge"
  type := .event
  behaviors := [.immediate [
    { kind := .globalParameter .oxygen, amount := maxInt32 },
    { kind := .globalParameter .oxygen, amount := maxInt32 },
    { kind := .globalParameter .oxygen, amount := -maxInt32 }]]

def printed : Rulebook where
  catalog := ⟨[harvest, surge]⟩
  rules := {}
  depth := 8

/-- A player with both cards in hand, and enough to pay for them. -/
def holding : World where
  store := {
    games := [("game", { id := "game" })]
    rosters := [("game", [{ Player.named "player" with
      hand := ["harvest", "surge"], resources := { credits := 10, steel := 2, heat := 2 } }])]
    decks := [("game", ["next"])] }
  session := { game := "game" }

def harvesting : PlayRequest where
  card := "harvest"
  payment := { credits := 6, steel := 2 }
  choice := some 0

theorem play_commits_harvest : (play printed "player" harvesting holding).1 = .ok () ∧
    ∃ game player card parameters after events v, holding.records.game? holding.game = some game ∧
      holding.player? "player" = some player ∧ printed.catalog.find? "harvest" = some card ∧
      commitPlay printed "player" harvesting holding = (.ok events, v) ∧
      Played printed.rules holding game player card harvesting parameters after v ∧
      announce printed events v = (.ok (), (play printed "player" harvesting holding).2) := by
  have h : (play printed "player" harvesting holding).1 = .ok () := by decide +kernel
  exact ⟨h, play_commits (Prod.fst_eq_iff.mp h)⟩

/-- Steps are not always moved by their exact sum. -/
theorem play_not_exact :
    let r : PlayRequest := { card := "surge" }
    (play printed "player" r holding).1 = .ok () ∧
      ¬ ∀ q,
        let steps := sumOf (.globalParameter q) (surge.gains none)
        let range := printed.rules.range q
        (commitPlay printed "player" r holding).2.parameters.get q =
          if steps = 0 then holding.parameters.get q
          else max range.min (min range.max (holding.parameters.get q + steps * range.step)) := by
  intro r
  refine ⟨by decide +kernel, fun h => ?_⟩
  have h := h .oxygen
  revert h
  decide +kernel

end Engine

end MarsRules
