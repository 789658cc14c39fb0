import MarsRules.Proofs.Calls
import MarsRules.Proofs.Publishing
import MarsRules.Session.Basic

/-! Laws of what a session does. A law says something of the calls on the store and of the ways of putting
steps together; then it holds of all that is put together of them. `OfferLaw` is about what is put before
the players, `WriteLaw` about what is written without drawing cards, `PlanLaw` about all that plans do, and
`SessionLaw` about what is asked of a session and about the announcements. -/

namespace MarsRules

open Steps (Keeps)

/-- The cards that this field offers. -/
def PlayerField.offered? : PlayerField → Option DrawOffer
  | drawOffer o => o
  | _ => none

/-- The cards that are offered again once this change is put back. -/
def Change.offered? : Change → Option DrawOffer
  | player _ f => f.offered?
  | _ => none

namespace Engine

/-- The writes of a play before the card itself does anything. -/
def writePaid (player : Player) (card : Card) (r : PlayRequest) (paid : ResourceSet) : Noted Unit := do
  let pool := paid + card.immediateInputs r.choice
  Steps.when (pool ≠ player.resources) (Noted.overwrite player (.resources pool))
  Noted.overwrite player (.hand (player.hand.filter (· ≠ card.id)))
  Noted.overwrite player (.played (player.played ++ [card.id]))
  startTokens player card

theorem writePlay_eq (rules : Rules) (player : Player) (card : Card) (r : PlayRequest)
    (paid : ResourceSet) : writePlay rules player card r paid =
      writePaid player card r paid >>= fun _ =>
        Noted.ofEngine (commitCard rules player.id card r.choice r.target) := by
  unfold writePlay writePaid
  simp only [bind_assoc]
  rfl

/-- The writes of a placement before the board is looked at: the offer is gone, the bonus is paid and
the parameters are moved. -/
def writeReward (rules : Rules) (player : Player) (offer : TileOffer) (bonus : ResourceSet) :
    Noted (List ParameterChange) := do
  Noted.note (.tiles player.id player.queue player.tileOffer)
  update player.id (.tileOffer none)
  Steps.when (!bonus.isZero) (Noted.overwrite player (.resources (player.resources + bonus)))
  Noted.applySteps rules player.id (offer.tile.raises?.toList.map (·, 1))

/-- The rest of a placement: the next offer and the board. -/
def writeTile (p : PlayerId) (offer : TileOffer) (c : Coord) : Noted Unit := do
  let owner := offer.tile.ownerOf p
  let (_, board) ← ofExcept ((← readGame).board.occupy c offer.tile owner)
  let _ ← offerNext p board
  let _ ← onStore (Store.placeTile (← gameId) c offer.tile owner)

theorem writePlacement_eq (rules : Rules) (player : Player) (offer : TileOffer) (c : Coord)
    (bonus : ResourceSet) : writePlacement rules player offer c bonus =
      writeReward rules player offer bonus >>= fun changes =>
        writeTile player.id offer c >>= fun _ => pure changes := by
  unfold writePlacement writeReward writeTile
  simp only [bind_assoc, pure_bind]

end Engine

/-- A law of steps. It may be about one game only, the one that the session `plays`. -/
structure StepLaw where
  holds : ∀ {α : Type}, Engine α → Prop
  plays : GameId → Prop
  pure {α : Type} (a : α) : holds (Pure.pure a : Engine α)
  bind {α β : Type} {x : Engine α} {f : α → Engine β} :
    holds x → (∀ a, holds (f a)) → holds (x >>= f)
  gameId {α : Type} {f : GameId → Engine α} :
    (∀ g, plays g → holds (f g)) → holds (Engine.gameId >>= f)
  ofExcept {α : Type} (y : Except Refusal α) : holds (Engine.ofExcept y)
  readGame : holds Engine.readGame
  readPlayer (p : PlayerId) : holds (Engine.readPlayer p)
  findCard (catalog : Catalog) (id : CardId) : holds (Engine.findCard catalog id)

namespace StepLaw

variable (L : StepLaw) (p : PlayerId)

theorem refuse {α : Type} (e : Refusal) : L.holds (Engine.refuse e : Engine α) := L.ofExcept (.error e)

/-- The next tile is offered, if the queue and the offer may be written. -/
theorem offerNext {p : PlayerId} (hqueue : ∀ q, L.holds (Engine.update p (.queue q)))
    (hoffer : ∀ o, L.holds (Engine.update p (.tileOffer o))) (board : Board) :
    L.holds (Engine.offerNext p board) := by
  refine L.bind (L.readPlayer p) fun player => ?_
  split
  · split
    · exact L.bind (hqueue _) fun _ => L.bind (hoffer _) fun _ => L.pure _
    · exact L.bind (hqueue _) fun _ => L.pure _
  · exact L.pure _

theorem checkPlay (book : Rulebook) (r : PlayRequest) : L.holds (Engine.checkPlay book p r) :=
  L.bind L.readGame fun _ => L.bind (L.readPlayer p) fun _ => L.bind (L.findCard _ _) fun _ =>
    L.bind (L.ofExcept _) fun _ => L.pure _

/-- Drawn cards are kept, if the pool, the hand and the end of the offer may be written. -/
theorem commitDraw {p : PlayerId} (hupdate : ∀ {f : PlayerField}, f.offered? = none →
      f.write ∈ [Write.resources, .hand, .drawOffer] → L.holds (Engine.update p f))
    (picked : List CardId) : L.holds (Engine.commitDraw p picked) := by
  have hhand (hand : List CardId) : L.holds (Engine.update p (.hand hand)) :=
    hupdate rfl (by simp [PlayerField.write])
  have hdone : L.holds (Engine.update p (.drawOffer none)) := hupdate rfl (by simp [PlayerField.write])
  refine L.bind (L.readPlayer p) fun player => ?_
  split
  · exact L.refuse _
  · refine L.bind (L.ofExcept _) fun _ => ?_
    have hrest {event : GameId → Event} {hand : List CardId} : L.holds (do
        Engine.update p (.hand hand)
        Engine.update p (.drawOffer none)
        return event (← Engine.gameId)) :=
      L.bind (hhand _) fun _ => L.bind hdone fun _ => L.gameId fun _ _ => L.pure _
    dsimp only
    split
    · exact L.bind (hupdate rfl (by simp [PlayerField.write])) fun _ => hrest
    · exact hrest

/-- The used actions of all players can be used again, if they may be written. -/
theorem renewActions (hactions : ∀ p actions, L.holds (Engine.update p (.actions actions)))
    (players : List Player) : L.holds (Engine.renewActions players) := by
  induction players with
  | nil => exact L.pure _
  | cons player rest ih =>
    unfold Engine.renewActions
    dsimp only
    split
    · exact L.bind (hactions _ _) fun _ => ih
    · exact ih

theorem advanceGeneration (hgeneration : ∀ n, L.holds (Engine.updateGame (.generation n)))
    (hroster : ∀ {g : GameId}, L.plays g → L.holds (Engine.onStore (Store.readRoster g)))
    (hactions : ∀ p actions, L.holds (Engine.update p (.actions actions))) :
    L.holds Engine.advanceGeneration :=
  L.bind L.readGame fun _ => L.bind (hgeneration _) fun _ => L.gameId fun _ hg =>
    L.bind (hroster hg) fun players => L.bind (L.renewActions hactions players) fun _ => L.pure _

/-- What relates worlds that differ in nothing of account, and chains, is a law. -/
def keeps (R : World → World → Prop) [Std.Refl R] [Trans R R R]
    (halike : ∀ {w v : World}, World.Alike w v → R w v) : StepLaw where
  holds := Keeps R
  plays _ := True
  pure := Keeps.pure
  bind := Keeps.bind
  gameId h := Keeps.bind (fun w => halike (Engine.gameId_alike w)) fun g => h g trivial
  ofExcept y w := halike (Engine.ofExcept_alike y w)
  readGame w := halike (Engine.readGame_alike w)
  readPlayer p w := halike (Engine.readPlayer_alike p w)
  findCard catalog id w := halike (Engine.findCard_alike catalog id w)

end StepLaw

/-- A law of what is put before the players, drawn cards included. -/
structure OfferLaw extends StepLaw where
  offer (p : PlayerId) {f : PlayerField} : f.write ∈ [Write.queue, .tileOffer, .forced] →
    holds (Engine.update p f)
  /-- Cards are offered in place of what was on offer. -/
  offerCards (p : PlayerId) (n : Nat) (source : String) : holds (do
    let cards ← Engine.onStore (Store.drawCards (← Engine.gameId) n)
    Engine.update p (.drawOffer (some { cards, free := n, maxBought := 0, price := 0, source })))

namespace OfferLaw

variable (L : OfferLaw) (p : PlayerId)

theorem tileOffer (o : Option TileOffer) : L.holds (Engine.update p (.tileOffer o)) :=
  L.offer p (by simp [PlayerField.write])

theorem forced (f : Option ForcedAction) : L.holds (Engine.update p (.forced f)) :=
  L.offer p (by simp [PlayerField.write])

theorem offerForced (source : CardId) (item : LineItem) : L.holds (Engine.offerForced p source item) := by
  unfold Engine.offerForced
  split
  · exact L.offerCards p _ source
  · refine L.bind L.readGame fun game => ?_
    dsimp only
    split
    · exact L.bind (L.refuse _) fun _ => L.tileOffer p _
    · exact L.tileOffer p _
  · exact L.refuse _

theorem triggerForced (catalog : Catalog) : L.holds (Engine.triggerForced catalog p) := by
  refine L.bind (L.readPlayer p) fun player => ?_
  split
  · exact L.pure _
  · split
    · exact L.pure _
    · refine L.bind (L.findCard _ _) fun corporation => ?_
      split
      · exact L.refuse _
      · exact L.bind (L.offerForced p _ _) fun _ => L.bind (L.forced p _) fun _ => L.pure _

theorem completeForced (source : String) : L.holds (Engine.completeForced p source) := by
  refine L.bind (L.readPlayer p) fun player => ?_
  split
  · exact L.pure _
  · split
    · exact L.forced p _
    · exact L.pure _

theorem watchForced (catalog : Catalog) (e : Event) : L.holds (Engine.watchForced catalog e) := by
  refine L.gameId fun g _ => ?_
  split
  · exact L.pure _
  · split
    · split
      · refine L.bind L.readGame fun game => ?_
        split
        · exact L.bind (L.triggerForced _ _) fun _ => L.pure _
        · exact L.pure _
      · exact L.pure _
    · exact L.completeForced _ _
    · split
      · exact L.completeForced _ _
      · exact L.pure _
    · exact L.pure _

end OfferLaw

/-- A law of transactions as well, under some rules. -/
structure WriteLaw (rules : Rules) extends StepLaw where
  noted : ∀ {α : Type}, Noted α → Prop
  noted_pure {α : Type} (a : α) : noted (Pure.pure a : Noted α)
  noted_bind {α β : Type} {x : Noted α} {f : α → Noted β} :
    noted x → (∀ a, noted (f a)) → noted (x >>= f)
  noted_gameId {α : Type} {f : GameId → Noted α} :
    (∀ g, plays g → noted (f g)) → noted ((Engine.gameId : Noted GameId) >>= f)
  ofEngine {α : Type} {x : Engine α} : holds x → noted (Noted.ofEngine x)
  note {c : Change} : c.offered? = none → noted (Noted.note c)
  brokenRange {α : Type} {q : GlobalParameter} : ¬ (rules.range q).min ≤ (rules.range q).max →
    noted (Steps.stop .brokenRange : Noted α)
  update (p : PlayerId) {f : PlayerField} : f.offered? = none → holds (Engine.update p f)
  updateGame (f : GameField) : holds (Engine.updateGame f)
  addTiles {g : GameId} (p : PlayerId) (source : String) (tiles : List TileKind) : plays g →
    holds (Engine.onStore (Store.addTiles g p source tiles))
  subscribe (owner : PlayerId) (e : CardEffect) :
    holds (Engine.changeSession fun s => (s.subscribe owner e).2)
  transact {α : Type} {drop : Dropping Session} {steps : Noted α} :
    drop = keepAll ∨ drop = Session.dropCard → noted steps → holds (MarsRules.transact drop steps)

namespace WriteLaw

variable {rules : Rules} (L : WriteLaw rules)

theorem noted_when {x : Noted Unit} (hx : L.noted x) (c : Bool) : L.noted (Steps.when c x) := by
  cases c
  · exact L.noted_pure ()
  · exact hx

theorem overwrite (player : Player) {f : PlayerField} (hnew : f.offered? = none)
    (hold : (f.current player).offered? = none) : L.noted (Noted.overwrite player f) :=
  L.noted_bind (L.note (c := .player player.id (f.current player)) hold) fun _ =>
    L.ofEngine (L.update player.id hnew)

theorem moveParameter (now : Parameters) (q : GlobalParameter) (n : Int) :
    L.noted (Noted.moveParameter rules now q n) := by
  unfold Noted.moveParameter
  split
  · exact L.noted_pure _
  · split
    · next hnone =>
      refine L.brokenRange (q := q) fun hends => ?_
      simp [ParameterChange.of?, ParameterRange.clamp?, hends] at hnone
    · split
      · exact L.noted_bind (L.note rfl) fun _ =>
          L.noted_bind (L.ofEngine (L.updateGame _)) fun _ => L.noted_pure _
      · exact L.noted_pure _

theorem moveParameters (now : Parameters) (steps : List (GlobalParameter × Int)) :
    L.noted (Noted.moveParameters rules now steps) := by
  induction steps with
  | nil => exact L.noted_pure _
  | cons step rest ih =>
    exact L.noted_bind (L.moveParameter now step.1 step.2) fun _ =>
      L.noted_bind ih fun _ => L.noted_pure _

theorem applySteps (p : PlayerId) (steps : List (GlobalParameter × Int)) :
    L.noted (Noted.applySteps rules p steps) := by
  unfold Noted.applySteps
  split
  · exact L.noted_pure _
  · refine L.noted_bind (L.ofEngine L.readGame) fun game => ?_
    refine L.noted_bind (L.moveParameters _ steps) fun changes => ?_
    refine L.noted_bind (L.noted_when ?_ _) fun _ => L.noted_pure _
    exact L.noted_bind (L.ofEngine (L.readPlayer p)) fun player => L.overwrite player rfl rfl

theorem subscribeAll (owner : PlayerId) (seen : List CardId) (effects : List CardEffect) :
    L.noted (Noted.subscribe owner seen effects) := by
  induction effects generalizing seen with
  | nil => exact L.noted_pure _
  | cons e rest ih =>
    refine L.noted_bind (L.noted_when (L.note rfl) _) fun _ => ?_
    exact L.noted_bind (L.ofEngine (L.subscribe owner e)) fun _ => ih _

theorem offerNext (p : PlayerId) (board : Board) : L.holds (Engine.offerNext p board) :=
  L.toStepLaw.offerNext (fun _ => L.update p rfl) (fun _ => L.update p rfl) board

theorem commitDraw (p : PlayerId) (picked : List CardId) : L.holds (Engine.commitDraw p picked) :=
  L.toStepLaw.commitDraw (fun h _ => L.update p h) picked

variable (plan : Plan) (player : Player)

theorem writeTiles : L.noted (plan.writeTiles player) := by
  refine L.noted_when (L.noted_bind (L.note rfl) fun _ => L.noted_gameId fun g hg => ?_) _
  refine L.noted_bind (L.ofEngine (L.addTiles _ _ _ hg)) fun _ => ?_
  refine L.noted_bind (L.ofEngine ?_) fun _ => L.noted_pure _
  exact L.bind L.readGame fun game => L.offerNext _ game.board

theorem writeRecord (listening : Bool) : L.noted (plan.writeRecord player listening) := by
  have hwrite {f : PlayerField} (hnew : f.offered? = none) (hold : (f.current player).offered? = none)
      (c : Bool) : L.noted (Steps.when c (Noted.overwrite player f)) :=
    L.noted_when (L.overwrite player hnew hold) c
  refine L.noted_bind (hwrite rfl rfl _) fun _ => ?_
  refine L.noted_bind (L.noted_when ?_ _) fun _ => ?_
  · exact L.noted_bind (L.ofEngine (L.ofExcept _)) fun _ => L.overwrite player rfl rfl
  refine L.noted_bind (L.noted_when ?_ _) fun _ => ?_
  · exact L.noted_bind (L.overwrite player rfl rfl) fun _ => L.noted_when (L.subscribeAll _ _ _) _
  refine L.noted_bind (hwrite rfl rfl _) fun _ => L.noted_bind (hwrite rfl rfl _) fun _ => ?_
  exact L.noted_bind (hwrite rfl rfl _) fun _ => L.noted_bind (hwrite rfl rfl _) fun _ =>
    L.writeTiles plan player

theorem writeDraw_of (hdraw : ∀ player, L.noted (plan.writeDraw player)) {α : Type} {x : Player → Noted α}
    (hx : ∀ player, L.noted (x player)) : L.noted (do
      let player ← Engine.readPlayer plan.player
      let a ← x player
      plan.writeDraw player
      return a) :=
  L.noted_bind (L.ofEngine (L.readPlayer _)) fun player => L.noted_bind (hx player) fun _ =>
    L.noted_bind (hdraw player) fun _ => L.noted_pure _

/-- A plan is committed, if cards may be drawn after the rest of it is written. -/
theorem commit_of (hdraw : ∀ {α : Type} {x : Player → Noted α}, (∀ player, L.noted (x player)) →
      L.noted (do
        let player ← Engine.readPlayer plan.player
        let a ← x player
        plan.writeDraw player
        return a)) (listening : Bool) : L.holds (plan.commit rules listening) := by
  refine L.bind (L.transact ?_ ?_) fun _ => L.gameId fun _ _ => L.pure _
  · cases listening
    · exact .inl rfl
    · exact .inr rfl
  · have hsteps (player : Player) : L.noted (do
        plan.writeRecord player listening
        Noted.applySteps rules plan.player plan.parameters) :=
      L.noted_bind (L.writeRecord plan player listening) fun _ => L.applySteps _ _
    simpa only [Plan.write, bind_assoc] using hdraw hsteps

theorem writePaid (card : Card) (r : PlayRequest) (paid : ResourceSet) :
    L.noted (Engine.writePaid player card r paid) := by
  refine L.noted_bind (L.noted_when (L.overwrite player rfl rfl) _) fun _ => ?_
  refine L.noted_bind (L.overwrite player rfl rfl) fun _ => ?_
  refine L.noted_bind (L.overwrite player rfl rfl) fun _ => ?_
  unfold Engine.startTokens
  split
  · exact L.overwrite player rfl rfl
  · exact L.noted_pure _

variable (p : PlayerId)

theorem writeReward (offer : TileOffer) (bonus : ResourceSet) :
    L.noted (Engine.writeReward rules player offer bonus) := by
  refine L.noted_bind (L.note rfl) fun _ => L.noted_bind (L.ofEngine (L.update _ rfl)) fun _ => ?_
  exact L.noted_bind (L.noted_when (L.overwrite player rfl rfl) _) fun _ => L.applySteps _ _

section Place

variable {c : Coord} (hplace : ∀ {g : GameId}, L.plays g → ∀ tile owner,
  L.holds (Engine.onStore (Store.placeTile g c tile owner)))

include hplace

theorem writePlacement (offer : TileOffer) (bonus : ResourceSet) :
    L.noted (Engine.writePlacement rules player offer c bonus) := by
  rw [Engine.writePlacement_eq]
  refine L.noted_bind (L.writeReward player offer bonus) fun _ => ?_
  refine L.noted_bind ?_ fun _ => L.noted_pure _
  refine L.noted_bind (L.ofEngine L.readGame) fun game => ?_
  refine L.noted_bind (L.ofEngine (L.ofExcept _)) fun placed => ?_
  refine L.noted_bind (L.ofEngine (L.offerNext _ _)) fun _ => L.noted_gameId fun g hg => ?_
  exact L.noted_bind (L.ofEngine (hplace hg _ _)) fun _ => L.noted_pure _

theorem commitPlacement : L.holds (Engine.commitPlacement rules p c) := by
  refine L.bind (L.readPlayer p) fun player => L.bind (L.ofExcept _) fun offer => ?_
  refine L.bind L.readGame fun _ => L.bind (L.transact (.inl rfl) ?_) fun _ =>
    L.gameId fun _ _ => L.pure _
  exact L.writePlacement player hplace offer _

end Place

end WriteLaw

/-- A law of plans as well. The writes of an offer of cards stand on their own, as what they offer goes by
what was drawn and by what was on offer before. -/
structure PlanLaw (rules : Rules) extends OfferLaw, WriteLaw rules where
  /-- Cards are offered behind those that were on offer at the start. -/
  writeDraw {α : Type} {x : Player → Noted α} (plan : Plan) : (∀ player, noted (x player)) → noted (do
    let player ← Engine.readPlayer plan.player
    let a ← x player
    plan.writeDraw player
    return a)
  hear (e : Event) : holds (Engine.changeSession fun s => { s with heard := s.heard ++ [e] })

/-- A law that makes nothing of the cards that are on offer. -/
def WriteLaw.withDraws {rules : Rules} (L : WriteLaw rules)
    (hupdate : ∀ p f, L.holds (Engine.update p f)) (hnote : ∀ c, L.noted (Noted.note c))
    (hdraw : ∀ {g : GameId}, L.plays g → ∀ n, L.holds (Engine.onStore (Store.drawCards g n)))
    (hhear : ∀ e, L.holds (Engine.changeSession fun s => { s with heard := s.heard ++ [e] })) :
    PlanLaw rules :=
  { L with
    offer := fun p f _ => hupdate p f
    offerCards := fun p n _ => L.gameId fun _ hg => L.bind (hdraw hg n) fun _ => hupdate p _
    writeDraw := fun plan hx => L.writeDraw_of plan (fun _ => L.noted_when
      (L.noted_gameId fun _ hg => L.noted_bind (L.ofEngine (hdraw hg _)) fun _ =>
        L.noted_bind (hnote _) fun _ => L.ofEngine (hupdate _ _)) _) hx
    hear := hhear }

namespace PlanLaw

variable {rules : Rules} (L : PlanLaw rules) (plan : Plan) (player : Player)

theorem commit (listening : Bool) : L.holds (plan.commit rules listening) :=
  L.commit_of plan (L.writeDraw plan) listening

theorem effect (effect : CardEffect) (owner : PlayerId) (e : Event) :
    L.holds (effect.react rules owner e) := by
  refine L.gameId fun _ _ => ?_
  split
  · exact L.pure _
  · refine L.bind (L.readPlayer owner) fun player => L.bind (L.ofExcept _) fun plan => ?_
    split
    · exact L.pure _
    · exact L.commit plan false

variable (p : PlayerId)

theorem commitCard (card : Card) (choice : Option Nat) (target : Option CardId) :
    L.holds (Engine.commitCard rules p card choice target) := by
  refine L.bind (L.readPlayer p) fun player => L.bind (L.ofExcept _) fun plan => ?_
  split
  · exact L.pure _
  · exact L.commit plan true

theorem writePlay (card : Card) (r : PlayRequest) (paid : ResourceSet) :
    L.noted (Engine.writePlay rules player card r paid) := by
  rw [Engine.writePlay_eq]
  exact L.noted_bind (L.writePaid player card r paid) fun _ => L.ofEngine (L.commitCard _ _ _ _)

theorem commitUse (card : CardId) (index : Nat) (choice : Option Nat) (target : Option CardId) :
    L.holds (Engine.commitUse rules p card index choice target) :=
  L.bind (L.readPlayer p) fun _ => L.bind (L.ofExcept _) fun _ =>
    L.bind (L.ofExcept _) fun plan => L.commit plan true

section Book

variable {book : Rulebook} (L : PlanLaw book.rules)

theorem commitPlay (r : PlayRequest) : L.holds (Engine.commitPlay book p r) :=
  L.bind (L.checkPlay p book r) fun _ => L.bind (L.transact (.inl rfl) (L.writePlay _ _ _ _)) fun _ =>
    L.gameId fun _ _ => L.pure _

theorem react (l : Listener) (e : Event) : L.holds (l.react book e) := by
  cases l with
  | recorder => exact L.bind (L.hear e) fun _ => L.pure _
  | forcedAction => exact L.bind (L.watchForced _ e) fun _ => L.pure _
  | effect owner effect => exact L.effect effect owner e

end Book

end PlanLaw

/-- A law of what listeners do to each other as well, and of what else is asked of a session. -/
structure SessionLaw (rules : Rules) extends PlanLaw rules where
  listeners {α : Type} (kind : EventKind) {f : List (Subscription Listener) → Engine α} :
    (∀ subs, holds (f subs)) → holds (Engine.session >>= fun s => f (s.bus.listeners kind))
  isLive (id : SubscriptionId) : holds (Engine.isLive id)
  outcome {α : Type} {x : Engine α} : holds x → holds (Engine.outcome x)
  tooDeep {α : Type} : holds (Steps.stop .tooDeep : Engine α)
  orElse {α : Type} {x : Engine α} {putBack : Engine Unit} : holds x → holds putBack →
    holds (x.orElse putBack)
  readRoster {g : GameId} : plays g → holds (Engine.onStore (Store.readRoster g))
  subscribeCard {α : Type} (p : PlayerId) (card : Card) (f : Nat → α) : holds (do
    let s ← Engine.session
    Engine.changeSession fun s => (s.subscribeCard p card).2
    return f (s.subscribeCard p card).1)
  unsubscribe (card : CardId) : holds (Engine.changeSession (·.unsubscribe card))

namespace SessionLaw

theorem advanceGeneration {rules : Rules} (L : SessionLaw rules) : L.holds Engine.advanceGeneration :=
  L.toStepLaw.advanceGeneration (fun _ => L.updateGame _) L.readRoster fun p _ => L.update p rfl

variable {book : Rulebook} (L : SessionLaw book.rules)

theorem forM {α : Type} {f : α → Engine Unit} (hf : ∀ a, L.holds (f a)) (as : List α) :
    L.holds (as.forM f) := by
  induction as with
  | nil => exact L.pure _
  | cons a rest ih => exact L.bind (hf a) fun _ => ih

theorem deliver {call : Subscription Listener → Engine Bool} (hcall : ∀ s, L.holds (call s))
    (subs : List (Subscription Listener)) : L.holds (Bus.deliver Engine.isLive call subs) := by
  induction subs with
  | nil => exact L.pure _
  | cons s rest ih =>
    rw [Bus.deliver_cons]
    refine L.bind (L.isLive s.id) fun live => L.bind ?_ fun _ => L.bind ih fun _ => L.pure _
    cases live
    · exact L.pure _
    · exact hcall s

theorem publishWithin (depth : Nat) (e : Event) : L.holds (Engine.publishWithin book depth e) := by
  induction depth generalizing e with
  | zero => exact L.tooDeep
  | succ depth ih =>
    rw [Engine.publishWithin_succ]
    refine L.listeners e.kind fun subs => L.deliver (fun s => ?_) subs
    refine L.bind (L.outcome (L.react s.handler e)) fun r => ?_
    cases r with
    | error => exact L.pure _
    | ok events =>
      exact L.bind (L.forM (fun e => L.bind (ih e) fun _ => L.pure _) events) fun _ => L.pure _

theorem announce (events : List Event) : L.holds (Engine.announce book events) :=
  L.forM (fun e => L.bind (L.publishWithin book.depth e) fun _ => L.pure _) events

variable (p : PlayerId)

theorem selectCorporation (id : CardId) : L.holds (Engine.selectCorporation book p id) := by
  refine L.bind (L.findCard _ _) fun card => L.bind (L.ofExcept _) fun _ => ?_
  refine L.bind (L.readPlayer p) fun _ => L.bind (L.ofExcept _) fun _ => ?_
  refine L.bind (L.update p rfl) fun _ => ?_
  refine L.bind (L.orElse (L.commitCard _ _ _ _) (L.update p rfl)) fun events => ?_
  refine L.bind (L.announce events) fun _ => ?_
  split
  · exact L.forced p _
  · exact L.pure _

theorem setPhase (phase : GamePhase) : L.holds (Engine.setPhase book phase) :=
  L.bind L.readGame fun _ => L.bind (L.updateGame _) fun _ => L.gameId fun _ _ => L.announce _

theorem place {c : Coord} (hplace : ∀ {g : GameId}, L.plays g → ∀ tile owner,
    L.holds (Engine.onStore (Store.placeTile g c tile owner))) : L.holds (Engine.place book p c) :=
  L.bind (L.commitPlacement p hplace) fun _ => L.bind (L.announce _) fun _ => L.pure _

end SessionLaw

end MarsRules
