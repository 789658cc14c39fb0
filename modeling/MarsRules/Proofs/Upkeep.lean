import MarsRules.Proofs.Interleaving

/-! What a session keeps whatever is asked of it. A relation is an `Upkeep` if it chains and every call
keeps it, together with one of transactions, which has to survive being put back; all but placements then
keep it (`Upkeep.reply`), whether they succeed, are refused, are rewound or fail to be. Placements keep it
where the write of a board does (`Upkeep.place`). -/

namespace MarsRules

open Steps (Keeps)

/-- Relations of worlds and of transactions that chain, and that every call keeps. The writes of an offer
of cards stand on their own, as what they offer goes by what was drawn and by what was on offer before. -/
structure Upkeep where
  world : World → World → Prop
  noted : World × List Change → World × List Change → Prop
  trans {w v u : World} : world w v → world v u → world w u
  noted_trans {s t u : World × List Change} : noted s t → noted t u → noted s u
  alike {w v : World} : World.Alike w v → world w v
  changeSession {f : Session → Session} : (∀ s, Session.SameGame s (f s)) →
    Keeps world (Engine.changeSession f)
  update (p : PlayerId) {f : PlayerField} : f.offered? = none → Keeps world (Engine.update p f)
  updateGame (f : GameField) : Keeps world (Engine.updateGame f)
  addTiles (g : GameId) (p : PlayerId) (source : String) (tiles : List TileKind) :
    Keeps world (Engine.onStore (Store.addTiles g p source tiles))
  ofEngine {α : Type} {x : Engine α} : Keeps world x → Keeps noted (Noted.ofEngine x)
  note {c : Change} : c.offered? = none → Keeps noted (Noted.note c)
  transact {α : Type} {drop : Dropping Session} {steps : Noted α} :
    (∀ card s, Session.SameGame s (drop card s).2) → Keeps noted steps →
      Keeps world (MarsRules.transact drop steps)
  /-- Cards are offered in place of what was on offer. -/
  offerCards (p : PlayerId) (n : Nat) (source : String) : Keeps world (do
    let cards ← Engine.onStore (Store.drawCards (← Engine.gameId) n)
    Engine.update p (.drawOffer (some { cards, free := n, maxBought := 0, price := 0, source })))
  /-- Cards are offered behind those that were on offer at the start. -/
  writeDraw {α : Type} {x : Player → Noted α} (plan : Plan) : (∀ player, Keeps noted (x player)) →
    Keeps noted (do
      let player ← Engine.readPlayer plan.player
      let a ← x player
      plan.writeDraw player
      return a)

namespace Upkeep

variable (U : Upkeep)

instance : Std.Refl U.world := ⟨fun w => U.alike (Std.Refl.refl w)⟩

instance : Trans U.world U.world U.world := ⟨U.trans⟩

instance : Std.Refl U.noted := ⟨fun s => U.ofEngine (Keeps.pure ()) s⟩

instance : Trans U.noted U.noted U.noted := ⟨U.noted_trans⟩

theorem look {α : Type} {x : Engine α} (h : Keeps World.Alike x) : Keeps U.world x :=
  fun w => U.alike (h w)

theorem noted_look {α : Type} {x : Engine α} (h : Keeps World.Alike x) :
    Keeps U.noted (Noted.ofEngine x) := U.ofEngine (U.look h)

/-- What every call keeps, all that is made of them keeps. -/
def law (rules : Rules) : SessionLaw rules where
  toStepLaw := .keeps U.world U.alike
  offer p f h := U.update p (by cases f <;> first | rfl | simp [PlayerField.write] at h)
  offerCards := U.offerCards
  noted := Keeps U.noted
  noted_pure := Keeps.pure
  noted_bind := Keeps.bind
  noted_gameId h := (U.noted_look Engine.gameId_alike).bind fun g => h g trivial
  ofEngine := U.ofEngine
  note := U.note
  brokenRange _ := Keeps.stop _
  update p _ h := U.update p h
  updateGame := U.updateGame
  addTiles p source tiles _ := U.addTiles _ p source tiles
  subscribe owner e := U.changeSession fun s => s.subscribe_game owner e
  hear _ := U.changeSession fun _ => rfl
  transact hdrop := U.transact (sameGame_of_own hdrop)
  writeDraw := U.writeDraw
  listeners _ _ h := Engine.session_keeps.bind fun _ => h _
  isLive := Engine.isLive_keeps
  outcome := Engine.outcome_keeps
  tooDeep := Keeps.stop _
  orElse := Engine.orElse_keeps
  readRoster _ := U.look (Engine.onStore_alike (Store.readRoster_alike _))
  subscribeCard p card _ := Engine.session_keeps.bind fun _ =>
    (U.changeSession fun s => s.subscribeCard_game p card).bind fun _ => Keeps.pure _
  unsubscribe _ := U.changeSession fun _ => rfl

variable (book : Rulebook)

theorem place (p : PlayerId) (c : Coord) (hplace : ∀ g tile owner, Keeps U.world
    (Engine.onStore (Store.placeTile g c tile owner))) : Keeps U.world (Engine.place book p c) :=
  (U.law book.rules).place p fun _ => hplace _

/-- Whatever is asked, if placements that are asked for keep it. -/
theorem reply {a : Ask} (hplace : ∀ p c, a = .request (.call (.act p (.place c))) →
    Keeps U.world (Engine.place book p c)) : Keeps U.world (a.reply book) := by
  refine (U.law book.rules).reply hplace fun _ => U.changeSession fun s => ?_
  unfold Session.close Session.SameGame
  split <;> rfl

end Upkeep

end MarsRules
