import MarsRules.Proofs.Calls
import MarsRules.Proofs.Laws

/-! Where the ranges of the parameters are the right way round, a reaction to an event ends well or
is refused; it stops for no other reason. -/

namespace MarsRules

open Steps (StopsOnly)

namespace ParameterRange

/-- A range that numbers of 32 bits can bound, with a step that goes up. -/
structure Valid (r : ParameterRange) : Prop where
  min : FitsInt32 r.min
  max : FitsInt32 r.max
  ends : r.min ≤ r.max
  step : 1 ≤ r.step

end ParameterRange

def Rules.Valid (rules : Rules) : Prop := ∀ q, (rules.range q).Valid

/-- No range has its ends the wrong way round. -/
def Rules.Ordered (rules : Rules) : Prop := ∀ q, (rules.range q).min ≤ (rules.range q).max

theorem Rules.Valid.ordered {rules : Rules} (h : rules.Valid) : rules.Ordered := fun q => (h q).ends

def Stop.IsRefusal : Stop → Prop
  | .refused .. => True
  | _ => False

namespace Engine

variable {α : Type}

theorem onStore_stops (x : StoreSteps α) : StopsOnly Stop.IsRefusal (onStore x) := by
  intro w stop v h
  obtain ⟨e, t, -, rfl, -⟩ := onStore_eq_error.mp h
  trivial

theorem ofExcept_stops (y : Except Refusal α) : StopsOnly Stop.IsRefusal (ofExcept y) := by
  cases y with
  | ok => exact StopsOnly.pure _
  | error e =>
    intro w stop v h
    cases h
    trivial

theorem gameId_stops {S : Stop → Prop} : StopsOnly S gameId := fun w stop v h => by cases h

theorem update_stops (p : PlayerId) (f : PlayerField) : StopsOnly Stop.IsRefusal (update p f) :=
  gameId_stops.bind fun _ => onStore_stops _

theorem orElse_stops {S : Stop → Prop} {x : Engine α} {putBack : Engine Unit} (hx : StopsOnly S x)
    (hb : StopsOnly S putBack) (hS : ∀ stop, stop.IsRefusal → S stop) :
    StopsOnly S (x.orElse putBack) := by
  intro w stop v h
  rcases orElse_cases h with
    ⟨hw, -⟩ | ⟨_, _, u, -, ⟨-, he⟩ | ⟨stop', hu, ⟨_, _, -, he⟩ | ⟨-, he⟩⟩⟩
  · exact hx w stop v hw
  · cases he
    exact hS _ trivial
  · cases he
    exact hS _ trivial
  · cases he
    exact hb u stop v hu

end Engine

theorem Noted.ofEngine_stops {α : Type} {S : Stop → Prop} {x : Engine α} (h : StopsOnly S x) :
    StopsOnly S (ofEngine x) := by
  rintro ⟨w, noted⟩ e t hx
  exact h w e (x w).2 (Prod.ext (Prod.ext_iff.mp hx).1 rfl)

theorem transact_stops {α : Type} {S : Stop → Prop} {drop : Dropping Session} {steps : Noted α}
    (h : StopsOnly S steps) (hS : ∀ stop, stop.IsRefusal → S stop) :
    StopsOnly S (transact drop steps) := by
  intro w stop v hx
  unfold transact at hx
  split at hx
  · cases hx
  · cases hx
    exact hS _ trivial
  · next hs =>
    cases hx
    exact h _ _ _ hs

namespace Stop

open Engine

variable {S : Stop → Prop} (hS : ∀ stop, stop.IsRefusal → S stop)

/-- Reading stops for nothing but refusals. -/
def stepLaw : StepLaw where
  holds := StopsOnly S
  plays _ := True
  pure := StopsOnly.pure
  bind := StopsOnly.bind
  gameId h := gameId_stops.bind fun g => h g trivial
  ofExcept y := (ofExcept_stops y).mono hS
  readGame := gameId_stops.bind fun _ => (onStore_stops _).mono hS
  readPlayer _ := gameId_stops.bind fun _ => (onStore_stops _).mono hS
  findCard _ _ := ((onStore_stops _).bind fun _ => ofExcept_stops _).mono hS

/-- Nor does what is put before the players. -/
def offerLaw : OfferLaw where
  toStepLaw := stepLaw hS
  offer p f _ := (update_stops p f).mono hS
  offerCards p _ _ := (gameId_stops.bind fun _ => (onStore_stops _).bind fun _ => update_stops p _).mono hS

/-- Nor do plans, where no range has its ends the wrong way round. -/
def planLaw {rules : Rules} (hr : rules.Ordered) : PlanLaw rules :=
  WriteLaw.withDraws
    { stepLaw hS with
      noted := StopsOnly S
      noted_pure := StopsOnly.pure
      noted_bind := StopsOnly.bind
      noted_gameId := fun h => (Noted.ofEngine_stops gameId_stops).bind fun g => h g trivial
      ofEngine := Noted.ofEngine_stops
      note := fun _ => StopsOnly.change _
      brokenRange := fun h => absurd (hr _) h
      update := fun p f _ => (update_stops p f).mono hS
      updateGame := fun _ => gameId_stops.bind fun _ => (onStore_stops _).mono hS
      addTiles := fun _ _ _ _ => (onStore_stops _).mono hS
      subscribe := fun _ _ => StopsOnly.change _
      transact := fun _ h => transact_stops h hS }
    (fun p f => (update_stops p f).mono hS) (fun _ => StopsOnly.change _)
    (fun _ _ => (onStore_stops _).mono hS) fun _ => StopsOnly.change _

end Stop

theorem Engine.watchForced_stops (catalog : Catalog) (e : Event) :
    StopsOnly Stop.IsRefusal (watchForced catalog e) := (Stop.offerLaw fun _ h => h).watchForced catalog e

theorem CardEffect.react_stops {rules : Rules} (hr : rules.Ordered) (effect : CardEffect)
    (owner : PlayerId) (e : Event) : StopsOnly Stop.IsRefusal (effect.react rules owner e) :=
  (Stop.planLaw (fun _ h => h) hr).effect effect owner e

theorem Listener.react_stops {book : Rulebook} (hr : book.rules.Ordered) (e : Event) (l : Listener) :
    StopsOnly Stop.IsRefusal (l.react book e) := (Stop.planLaw (fun _ h => h) hr).react l e

end MarsRules
