import MarsRules.Proofs.Played
import MarsRules.Proofs.Slack

/-! The global parameters and the ratings of all players as a ledger. A commit enters what its outputs
come to, and its events tell of each parameter that has moved; whatever else is written leaves the
ledger as it is. A rating is known as far as 32 bits keep it, and so is their total. -/

namespace MarsRules

open Steps (Keeps)

section First

variable {α : Type} {p : α → Bool} {f : α → α} {h : α → Int} {xs : List α}

theorem total_changeFirst_of_eq (hf : ∀ a, h (f a) = h a) :
    total ((changeFirst p f xs).map h) = total (xs.map h) := by
  induction xs with
  | nil => rfl
  | cons a rest ih => cases hp : p a <;> simp [changeFirst, hp, hf, total, ih]

theorem total_changeFirst {a : α} (ha : xs.find? p = some a) :
    total ((changeFirst p f xs).map h) = total (xs.map h) + (h (f a) - h a) := by
  induction xs with
  | nil => cases ha
  | cons b rest ih =>
    cases hp : p b
    · have ha : rest.find? p = some a := by simpa [hp] using ha
      simp only [changeFirst, hp, Bool.false_eq_true, if_false, List.map_cons, total, ih ha]
      omega
    · obtain rfl : b = a := by simpa [hp] using ha
      simp only [changeFirst, hp, if_true, List.map_cons, total]
      omega

end First

namespace Records

variable {r : Records} {g : GameId} {p : PlayerId} {f : Player → Player}

/-- The ratings of all players of a game together. -/
def ratings (r : Records) (g : GameId) : Int := total ((r.roster g).map (·.rating))

theorem ratings_changePlayer_of_eq (hf : ∀ x, (f x).rating = x.rating) :
    (r.changePlayer g p f).ratings g = r.ratings g := by
  unfold changePlayer
  cases hr : r.rosters.get? g with
  | none => rfl
  | some players => simp [ratings, roster, hr, total_changeFirst_of_eq hf]

theorem ratings_changePlayer {x : Player} (hx : r.player? g p = some x) :
    (r.changePlayer g p f).ratings g = r.ratings g + ((f x).rating - x.rating) := by
  unfold changePlayer
  cases hr : r.rosters.get? g with
  | none => simp [player?, roster, hr] at hx
  | some players =>
    have hx : players.find? (·.id == p) = some x := by simpa [player?, roster, hr] using hx
    simp [ratings, roster, hr, total_changeFirst hx]

theorem ratings_changeGame {u : Game → Game} : (r.changeGame g u).ratings g = r.ratings g := by
  unfold changeGame
  split <;> rfl

end Records

/-- The parameters of a game, and what 32 bits keep of the ratings of its players together. -/
structure Ledger where
  parameters : Parameters
  ratings : Int
deriving DecidableEq, Repr

def World.ledger (w : World) : Ledger := ⟨w.parameters, wrapInt32 (w.records.ratings w.game)⟩

/-- Where outputs take the parameters. -/
def Parameters.moved (rules : Rules) (v : Parameters) (items : List LineItem) : Parameters :=
  let moved q := if netSteps q items = 0 then v.get q else rules.moved q (v.get q) (netSteps q items)
  { temperature := moved .temperature, oxygen := moved .oxygen, oceans := moved .oceans }

theorem Parameters.get_moved (rules : Rules) (v : Parameters) (items : List LineItem)
    (q : GlobalParameter) : (v.moved rules items).get q =
      if netSteps q items = 0 then v.get q else rules.moved q (v.get q) (netSteps q items) := by
  cases q <;> rfl

/-- The ledger once these outputs are applied for one of the players. -/
def Ledger.enter (rules : Rules) (l : Ledger) (items : List LineItem) : Ledger :=
  let parameters := l.parameters.moved rules items
  { parameters
    ratings := wrapInt32 (l.ratings + (sumOf .terraformRating items +
      if rules.ratingPerStep then ParameterChange.gained rules l.parameters parameters else 0)) }

/-- The move of a parameter that an event tells of: where it was and where it is. -/
def Event.move? (q : GlobalParameter) : Event → Option (Int × Int)
  | .parameterChanged p e => if p = q then some (e.before, e.after) else none
  | _ => none

def movesOf (q : GlobalParameter) (events : List Event) : List (Int × Int) :=
  events.filterMap (·.move? q)

theorem movesOf_cons (q : GlobalParameter) (e : Event) (events : List Event) :
    movesOf q (e :: events) = (e.move? q).toList ++ movesOf q events := by
  cases h : e.move? q <;> simp [movesOf, h]

theorem movesOf_append (q : GlobalParameter) (events more : List Event) :
    movesOf q (events ++ more) = movesOf q events ++ movesOf q more := List.filterMap_append

/-- The move from one place to another; who stays does not move. -/
def moveFrom (before after : Int) : List (Int × Int) :=
  if before = after then [] else [(before, after)]

@[simp] theorem moveFrom_self (n : Int) : moveFrom n n = [] := if_pos rfl

/-- The outputs are entered, and the events tell of the parameters that have moved. -/
structure World.Posted (rules : Rules) (items : List LineItem) (events : List Event) (w v : World) :
    Prop where
  ledger : v.ledger = w.ledger.enter rules items
  events : ∀ q, movesOf q events = moveFrom (w.parameters.get q) (v.parameters.get q)

/-- Nothing is entered. -/
def World.Level (w v : World) : Prop := v.ledger = w.ledger

instance : Std.Refl World.Level := ⟨fun _ => rfl⟩

instance : Trans World.Level World.Level World.Level := ⟨fun h h' => Eq.trans h' h⟩

/-- An entry that the ledger does not go by. -/
def Entry.Neutral : Entry → Prop
  | .player _ f => f.write ≠ .rating
  | .parameter _ _ => False

theorem Entry.Offers.neutral (e : Entry) (h : e.Offers) : e.Neutral := by
  cases e with
  | player p f => cases f <;> simp_all [Offers, Neutral, PlayerField.write]
  | parameter => exact h

theorem PlayerField.rating_put {f : PlayerField} (h : f.write ≠ .rating) (x : Player) :
    (f.put x).rating = x.rating := by
  cases f <;> first | rfl | exact absurd rfl h

theorem Records.ratings_putAll {g : GameId} {es : List Entry} (h : ∀ e ∈ es, e.Neutral) (r : Records) :
    (r.putAll g es).ratings g = r.ratings g := by
  induction es generalizing r with
  | nil => rfl
  | cons e rest ih =>
    obtain ⟨he, hr⟩ := List.forall_mem_cons.mp h
    refine (ih hr _).trans ?_
    cases e with
    | player p f => exact ratings_changePlayer_of_eq (PlayerField.rating_put he)
    | parameter => exact he.elim

namespace World

variable {rules : Rules} {items : List LineItem} {events : List Event} {w v u : World}

theorem Wrote.level (h : Wrote Entry.Neutral w v) : Level w v := by
  have hp : v.parameters = w.parameters := h.parameters_of_player fun _ _ => id
  obtain ⟨es, hr, hes⟩ := h.store
  have hr : v.records.ratings v.game = w.records.ratings w.game := by
    rw [h.game, show v.records = _ from hr]
    exact Records.ratings_putAll hes _
  show Ledger.mk _ _ = Ledger.mk _ _
  rw [hp, hr]

theorem Alike.level (h : Alike w v) : Level w v := h.wrote.level

theorem Restored.level (h : Restored w v) : Level w v := by
  show Ledger.mk ((v.records.game? v.game).map _ |>.getD _) (wrapInt32 (v.records.ratings v.game)) = _
  rw [h.game, h.records]
  rfl

theorem Level.parameters (h : Level w v) : v.parameters = w.parameters := congrArg Ledger.parameters h

theorem Posted.after (h : Level w v) (h' : Posted rules items events v u) :
    Posted rules items events w u :=
  ⟨h'.ledger.trans (congrArg (Ledger.enter rules · items) h), h.parameters ▸ h'.events⟩

theorem Posted.before (h : Posted rules items events w v) (h' : Level v u) :
    Posted rules items events w u :=
  ⟨Eq.trans h' h.ledger, h'.parameters ▸ h.events⟩

/-- An event that is not about a parameter may be told as well. -/
theorem Posted.append (h : Posted rules items events w v) {more : List Event}
    (hmore : ∀ e ∈ more, ∀ q, e.move? q = none) : Posted rules items (events ++ more) w v := by
  refine ⟨h.ledger, fun q => ?_⟩
  have hnone : movesOf q more = [] := List.filterMap_eq_nil_iff.mpr fun e he => hmore e he q
  rw [movesOf_append, hnone, List.append_nil]
  exact h.events q

end World

namespace Engine

variable {p : PlayerId}

theorem update_level {f : PlayerField} (h : f.write ≠ .rating) : Keeps World.Level (update p f) :=
  fun w => World.Wrote.level (update_wrote h w)

theorem offerNext_level (p : PlayerId) (board : Board) : Keeps World.Level (offerNext p board) :=
  fun w => (offerNext_wrote Entry.Offers.neutral p board w).level

theorem watchForced_level (catalog : Catalog) (e : Event) : Keeps World.Level (watchForced catalog e) :=
  fun w => (watchForced_wrote Entry.Offers.neutral catalog e w).level

/-- A change of the game's record that leaves the parameters alone. -/
theorem level_of_changeGame {w v : World} {u : Game → Game} (hg : v.game = w.game)
    (hu : ∀ g, (u g).parameters = g.parameters) (hr : v.records = w.records.changeGame w.game u) :
    World.Level w v := by
  show Ledger.mk ((v.records.game? v.game).map _ |>.getD _) (wrapInt32 (v.records.ratings v.game)) = _
  rw [hg, hr, Records.game?_changeGame, Records.ratings_changeGame]
  cases h : w.records.game? w.game <;> simp [World.ledger, World.parameters, h, hu]

theorem updateGame_level {f : GameField} (hf : ∀ g, (f.put g).parameters = g.parameters) :
    Keeps World.Level (updateGame f) := by
  intro w
  rcases h : updateGame f w with ⟨stop | _, v⟩
  · exact (updateGame_error h).level
  · obtain ⟨hs, hr, -⟩ := updateGame_ok h
    exact level_of_changeGame (congrArg Session.game hs) hf hr

theorem placeTile_level (g : GameId) (c : Coord) (tile : TileKind) (owner : Option PlayerId) (w : World)
    (hg : g = w.game) : World.Level w (onStore (Store.placeTile g c tile owner) w).2 := by
  rcases h : onStore (Store.placeTile g c tile owner) w with ⟨stop | _, v⟩
  · obtain ⟨_, t, ht, -, rfl⟩ := onStore_eq_error.mp h
    exact World.Alike.level ⟨rfl, Store.placeTile_error ht⟩
  · obtain ⟨t, ht, rfl⟩ := onStore_eq_ok.mp h
    obtain ⟨-, board, -, -, hr, -⟩ := Store.placeTile_ok ht
    subst hg
    exact level_of_changeGame (u := ({ · with board })) rfl (fun _ => rfl) hr

end Engine

end MarsRules
