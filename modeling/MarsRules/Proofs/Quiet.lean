import MarsRules.Proofs.Atomicity
import MarsRules.Proofs.Listening
import MarsRules.Proofs.Slack
import MarsRules.Session.Draw
import MarsRules.Session.Place

/-! Operations that are quiet: neither the subscriptions nor the effects on record change, whether
they succeed or not and whatever they put back. Only playing a card is not. -/

namespace MarsRules

open Steps (Keeps)

section First

variable {α β : Type} {p : α → Bool} {f : α → α} {h : α → List β} {l : List β}

theorem flatMap_changeFirst (hf : ∀ a, h (f a) = h a) (xs : List α) :
    (changeFirst p f xs).flatMap h = xs.flatMap h := by
  induction xs with
  | nil => rfl
  | cons a rest ih => cases hp : p a <;> simp [changeFirst, hp, hf, ih]

/-- What the first member comes to yield in addition, the list does. -/
theorem flatMap_changeFirst_perm {xs : List α} {a : α} (hx : xs.find? p = some a)
    (ha : h (f a) = h a ++ l) : ((changeFirst p f xs).flatMap h).Perm (xs.flatMap h ++ l) := by
  induction xs with
  | nil => cases hx
  | cons b rest ih =>
    cases hp : p b
    · simp only [List.find?_cons, hp] at hx
      simpa [changeFirst, hp] using (ih hx).append_left (h b)
    · obtain rfl : b = a := by simpa [hp] using hx
      simpa [changeFirst, hp, ha] using (List.perm_append_comm : (l ++ _).Perm _).append_left (h b)

end First

/-- The effects that listen for a player, by the record. -/
def Player.standing (x : Player) : List (PlayerId × CardEffect) :=
  (x.effects.filter (·.listens)).map (x.id, ·)

namespace Records

variable {r : Records} {g : GameId} {p : PlayerId}

/-- The same for all players of a game. -/
def standing (r : Records) (g : GameId) : List (PlayerId × CardEffect) :=
  (r.roster g).flatMap (·.standing)

theorem standing_changePlayer {f : Player → Player} (hf : ∀ x, (f x).standing = x.standing) :
    (r.changePlayer g p f).standing g = r.standing g := by
  unfold changePlayer
  cases hr : r.rosters.get? g with
  | none => rfl
  | some players => simp [standing, roster, hr, flatMap_changeFirst hf]

theorem standing_changePlayer_perm {f : Player → Player} {x : Player}
    {l : List (PlayerId × CardEffect)} (hx : r.player? g p = some x)
    (hf : (f x).standing = x.standing ++ l) :
    ((r.changePlayer g p f).standing g).Perm (r.standing g ++ l) := by
  unfold changePlayer
  cases hr : r.rosters.get? g with
  | none => simp [player?, roster, hr] at hx
  | some players =>
    have hx : players.find? (·.id == p) = some x := by simpa [player?, roster, hr] using hx
    simpa [standing, roster, hr] using flatMap_changeFirst_perm hx hf

theorem standing_changeGame {f : Game → Game} : (r.changeGame g f).standing g = r.standing g := by
  unfold changeGame
  split <;> rfl

end Records

/-- A field that is not a player's effects. -/
def Entry.Silent : Entry → Prop
  | .player _ f => f.write ≠ .effects
  | .parameter _ _ => True

theorem Entry.Plain.silent (e : Entry) (h : e.Plain) : e.Silent := by
  cases e with
  | player => exact h
  | parameter => trivial

theorem Entry.Moves.silent {rules : Rules} {first : Parameters} {steps : List (GlobalParameter × Int)}
    (e : Entry) (h : e.Moves rules first steps) : e.Silent := by
  cases e with
  | player => exact h
  | parameter => trivial

theorem PlayerField.standing_put {f : PlayerField} (h : f.write ≠ .effects) (x : Player) :
    (f.put x).standing = x.standing := by
  cases f <;> first | rfl | exact absurd rfl h

theorem Records.standing_putAll {g : GameId} {es : List Entry} (h : ∀ e ∈ es, e.Silent) (r : Records) :
    (r.putAll g es).standing g = r.standing g := by
  induction es generalizing r with
  | nil => rfl
  | cons e rest ih =>
    obtain ⟨he, hr⟩ := List.forall_mem_cons.mp h
    refine (ih hr _).trans ?_
    cases e with
    | player p f => exact standing_changePlayer (PlayerField.standing_put he)
    | parameter q v => exact standing_changeGame

/-- The players are left alone. -/
def Store.SamePlayers (s t : Store) : Prop := t.rosters = s.rosters

namespace Store

instance : Std.Refl SamePlayers := ⟨fun _ => rfl⟩

instance : Trans SamePlayers SamePlayers SamePlayers := ⟨fun h h' => h'.trans h⟩

theorem Alike.samePlayers {s t : Store} (h : Alike s t) : SamePlayers s t :=
  congrArg Records.rosters h.records

theorem placeTile_samePlayers (g : GameId) (c : Coord) (tile : TileKind) (owner : Option PlayerId) :
    Keeps SamePlayers (placeTile g c tile owner) := by
  have hgame : Keeps SamePlayers (theGame g) := fun s => (theGame_alike g s).samePlayers
  have hchange (f : Game → Game) : Keeps SamePlayers (changeGame g f) :=
    hgame.bind fun game s => rfl
  refine Keeps.bind (fun s => (perform_alike _ s).samePlayers) fun _ => hgame.bind fun game => ?_
  exact (Keeps.ofExcept _).bind fun placed => (hchange _).bind fun _ => Keeps.pure _

end Store

/-- The passive effects with a trigger that the rules know, as the players' records have them. -/
def World.recorded (w : World) : List (PlayerId × CardEffect) := w.records.standing w.game

/-- The same subscriptions, and the same effects on record. -/
structure World.Quiet (w v : World) : Prop where
  same : w.session.Same v.session
  recorded : v.recorded = w.recorded

namespace World

variable {w v u : World}

instance : Std.Refl Quiet := ⟨fun _ => ⟨.refl _, rfl⟩⟩

instance : Trans Quiet Quiet Quiet :=
  ⟨fun h h' => ⟨h.same.trans h'.same, h'.recorded.trans h.recorded⟩⟩

theorem Wrote.same {ok : Entry → Prop} (h : Wrote ok w v) : w.session.Same v.session :=
  ⟨h.game, h.bus, h.subscribed⟩

theorem Wrote.quiet (h : Wrote Entry.Silent w v) : Quiet w v := by
  refine ⟨h.same, ?_⟩
  obtain ⟨es, hr, hes⟩ := h.store
  show v.store.records.standing v.game = _
  rw [h.game, hr]
  exact Records.standing_putAll hes _

theorem Alike.quiet (h : Alike w v) : Quiet w v := h.wrote.quiet

theorem Quiet.of_samePlayers (hs : w.session.Same v.session) (h : w.store.SamePlayers v.store) :
    Quiet w v := by
  refine ⟨hs, ?_⟩
  show Records.standing ⟨v.store.games, v.store.rosters⟩ v.session.game = _
  rw [hs.game, show v.store.rosters = w.store.rosters from h]
  rfl

/-- Nothing else is done that `Quiet` asks about where the records are put back. -/
theorem Restored.quiet (h : Restored w v) (hs : w.session.Same v.session) : Quiet w v :=
  ⟨hs, by unfold recorded; rw [h.game, h.records]⟩

end World

namespace Engine

variable {α : Type}

theorem update_quiet {p : PlayerId} {f : PlayerField} (h : f.write ≠ .effects) :
    Keeps World.Quiet (update p f) := fun w => World.Wrote.quiet (update_wrote h w)

theorem placeTile_quiet (g : GameId) (c : Coord) (tile : TileKind) (owner : Option PlayerId) :
    Keeps World.Quiet (onStore (Store.placeTile g c tile owner)) := by
  intro w
  have h := Store.placeTile_samePlayers g c tile owner w.store
  unfold onStore
  rcases hp : Store.placeTile g c tile owner w.store with ⟨_ | _, t⟩ <;> rw [hp] at h <;>
    exact .of_samePlayers (.refl _) h

end Engine

/-- The steps of a transaction are quiet, and so is putting back what they note. -/
structure Hushed (s t : World × List Change) : Prop where
  quiet : s.1.Quiet t.1
  noted : NotedOn Entry.Silent s.2 t.2

instance : Std.Refl Hushed := ⟨fun _ => ⟨Std.Refl.refl _, Std.Refl.refl _⟩⟩

instance : Trans Hushed Hushed Hushed :=
  ⟨fun h h' => ⟨Trans.trans h.quiet h'.quiet, h.noted.trans h'.noted⟩⟩

theorem Recorded.hushed {s t : World × List Change} (h : Recorded Entry.Silent s t) : Hushed s t :=
  ⟨h.wrote.quiet, h.noted⟩

theorem Noted.ofEngine_hushed {α : Type} {x : Engine α} (hx : Keeps World.Quiet x) :
    Keeps Hushed (ofEngine x) := fun (w, _) => ⟨hx w, Std.Refl.refl _⟩

theorem transact_quiet {α : Type} {drop : Dropping Session} {steps : Noted α} {w : World}
    (h : Hushed (w, []) (steps (w, [])).2) : World.Quiet w (transact drop steps w).2 :=
  transact_related (fun _ _ hu => hu.quiet) h.quiet h.noted

namespace Engine

theorem alike_quiet {α : Type} {x : Engine α} (hx : Keeps World.Alike x) : Keeps World.Quiet x :=
  fun w => (hx w).quiet

theorem writePlacement_hushed (rules : Rules) (player : Player) (offer : TileOffer) (c : Coord)
    (bonus : ResourceSet) : Keeps Hushed (writePlacement rules player offer c bonus) := by
  have halike {α : Type} {x : Engine α} (hx : Keeps World.Alike x) : Keeps Hushed (Noted.ofEngine x) :=
    fun s => (Noted.alike_recorded hx s).hushed
  have hn : (Change.tiles player.id player.queue player.tileOffer).Within Entry.Silent := fun e he => by
    have he : e = .player player.id (.queue player.queue) ∨
        e = .player player.id (.tileOffer player.tileOffer) := by simpa [Change.entries] using he
    rcases he with rfl | rfl <;> simp [Entry.Silent, PlayerField.write]
  refine Keeps.bind (fun s => (Noted.note_recorded hn s).hushed) fun _ => ?_
  refine Keeps.bind (Noted.ofEngine_hushed (update_quiet (by simp [PlayerField.write]))) fun _ => ?_
  refine Keeps.bind (Keeps.when (fun s => (Noted.overwrite_plain Entry.Plain.silent
    (by simp [PlayerField.write]) s).hushed) _) fun _ => ?_
  refine Keeps.bind (fun s => ((Noted.applySteps_recorded player.id s).mono Entry.Moves.silent).hushed)
    fun changes => ?_
  refine (halike readGame_alike).bind fun game => ?_
  refine (halike (ofExcept_alike _)).bind fun placed => ?_
  refine Keeps.bind (Noted.ofEngine_hushed fun w => (offerNext_wrote (fun e he => Entry.Plain.silent e he.plain) _ _ w).quiet)
    fun _ => ?_
  refine (halike gameId_alike).bind fun g => ?_
  exact (Noted.ofEngine_hushed (placeTile_quiet g c _ _)).bind fun _ => Keeps.pure _

theorem commitPlacement_quiet (rules : Rules) (p : PlayerId) (c : Coord) :
    Keeps World.Quiet (commitPlacement rules p c) := by
  refine (alike_quiet (readPlayer_alike p)).bind fun player => ?_
  refine (alike_quiet (ofExcept_alike _)).bind fun offer => ?_
  refine (alike_quiet readGame_alike).bind fun game => ?_
  refine Keeps.bind (fun w => transact_quiet (writePlacement_hushed _ _ _ _ _ _)) fun changes => ?_
  exact (alike_quiet gameId_alike).bind fun g => Keeps.pure _

end Engine

namespace Plan

variable {plan : Plan} {rules : Rules} {player : Player} {choice : Option Nat}
  {target : Option CardId}

/-- Using an action gives no effects. -/
theorem ofAction_effects {action : CardAction}
    (h : ofAction rules player action choice target = .ok plan) : plan.effects = [] :=
  (ofAction_gains h).1.effects

theorem commit_quiet (he : plan.effects = []) (rules : Rules) (listening : Bool) :
    Keeps World.Quiet (plan.commit rules listening) :=
  fun w => ((plan.commit_wrote he rules listening w).mono Entry.Moves.silent).quiet

end Plan

theorem Listener.react_quiet (book : Rulebook) (l : Listener) (e : Event) :
    Keeps World.Quiet (l.react book e) := by
  cases l with
  | recorder => exact fun w => .of_samePlayers ⟨rfl, rfl, rfl⟩ rfl
  | forcedAction =>
    refine Keeps.bind (fun w => ?_) fun _ => Keeps.pure _
    exact (Engine.watchForced_wrote (fun e he => Entry.Plain.silent e he.plain) _ _ w).quiet
  | effect owner standing =>
    intro w
    rcases h : standing.react book.rules owner e w with ⟨r, v⟩
    show World.Quiet w (standing.react book.rules owner e w).2
    rw [h]
    rcases CardEffect.react_cases h with ⟨hv, -⟩ | ⟨player, plan, u, -, -, hplan, hu, hc⟩
    · exact hv.quiet
    · have heffects : plan.effects = [] := (Plan.addOutputs_gains hplan).effects
      exact Trans.trans hu.quiet ((Plan.commit_quiet heffects _ _).apply hc)

namespace Engine

variable (book : Rulebook) (p : PlayerId)

theorem announce_quiet (events : List Event) : Keeps World.Quiet (announce book events) :=
  announce_keeps (fun l e => l.react_quiet book e) events

theorem useAction_quiet (card : CardId) (index : Nat) (choice : Option Nat) (target : Option CardId) :
    Keeps World.Quiet (useAction book p card index choice target) := by
  refine Keeps.bind ?_ fun events => announce_quiet book events
  refine (alike_quiet (readPlayer_alike p)).bind fun player => ?_
  refine (alike_quiet (ofExcept_alike _)).bind fun action => ?_
  refine (alike_quiet (ofExcept_alike _)).bind_of fun w plan v h => ?_
  obtain ⟨hplan, rfl⟩ := ofExcept_eq_ok.mp h
  exact Plan.commit_quiet (Plan.ofAction_effects hplan) _ _ w

theorem place_quiet (c : Coord) : Keeps World.Quiet (place book p c) :=
  (commitPlacement_quiet book.rules p c).bind fun (_, events) =>
    (announce_quiet book events).bind fun _ => Keeps.pure _

theorem confirmDraw_quiet (picked : List CardId) : Keeps World.Quiet (confirmDraw book p picked) :=
  Keeps.bind ((StepLaw.keeps World.Quiet World.Alike.quiet).commitDraw
    (fun _ hf => update_quiet fun he => by simp [he] at hf) picked) fun e => announce_quiet book [e]

end Engine

end MarsRules
