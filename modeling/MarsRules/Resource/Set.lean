import MarsRules.Json.Reader
import MarsRules.Resource.Kind

/-! Six counters, one a base resource: a pool, a production, or what is to be added to one. -/

namespace MarsRules

structure ResourceSet where
  credits : Int := 0
  steel : Int := 0
  titanium : Int := 0
  plants : Int := 0
  energy : Int := 0
  heat : Int := 0
deriving DecidableEq, Repr, Inhabited

namespace ResourceSet

def zero : ResourceSet := {}

def get (s : ResourceSet) : BaseResource → Int
  | .credits => s.credits
  | .steel => s.steel
  | .titanium => s.titanium
  | .plants => s.plants
  | .energy => s.energy
  | .heat => s.heat

def set (s : ResourceSet) (r : BaseResource) (n : Int) : ResourceSet :=
  match r with
  | .credits => { s with credits := n }
  | .steel => { s with steel := n }
  | .titanium => { s with titanium := n }
  | .plants => { s with plants := n }
  | .energy => { s with energy := n }
  | .heat => { s with heat := n }

/-- The set whose counters `f` gives. -/
def of (f : BaseResource → Int) : ResourceSet :=
  ⟨f .credits, f .steel, f .titanium, f .plants, f .energy, f .heat⟩

def add (s : ResourceSet) (r : BaseResource) (n : Int) : ResourceSet :=
  s.set r (addInt32 (s.get r) n)

instance : Add ResourceSet := ⟨fun s t => of fun r => addInt32 (s.get r) (t.get r)⟩
instance : Neg ResourceSet := ⟨fun s => of fun r => wrapInt32 (-s.get r)⟩

def isZero (s : ResourceSet) : Bool := BaseResource.all.all fun r => s.get r == 0

def toList (s : ResourceSet) : List (BaseResource × Int) := BaseResource.all.map fun r => (r, s.get r)

/-- The first counter that adding `delta` would take below zero, what it holds and what is asked
of it. -/
def shortfall? (s delta : ResourceSet) : Option (BaseResource × Int × Int) :=
  (BaseResource.all.find? fun r => (s + delta).get r < 0).map fun r =>
    (r, s.get r, (-delta).get r)

@[ext] theorem ext_get {s t : ResourceSet} (h : ∀ r, s.get r = t.get r) : s = t := by
  cases s; cases t
  have := h .credits; have := h .steel; have := h .titanium
  have := h .plants; have := h .energy; have := h .heat
  simp_all [get]

@[simp] theorem get_of (f : BaseResource → Int) (r : BaseResource) : (of f).get r = f r := by
  cases r <;> rfl

@[simp] theorem get_add (s t : ResourceSet) (r : BaseResource) :
    (s + t).get r = addInt32 (s.get r) (t.get r) := get_of ..

@[simp] theorem get_neg (s : ResourceSet) (r : BaseResource) :
    (-s).get r = wrapInt32 (-s.get r) := get_of ..

@[simp] theorem get_zero (r : BaseResource) : zero.get r = 0 := by cases r <;> rfl

@[simp] theorem add_zero (s : ResourceSet) : s + zero = s := by
  ext r
  simp

theorem get_set (s : ResourceSet) (q r : BaseResource) (n : Int) :
    (s.set q n).get r = if q = r then n else s.get r := by cases q <;> cases r <;> rfl

theorem get_addOne (s : ResourceSet) (q r : BaseResource) (n : Int) :
    (s.add q n).get r = addInt32 (s.get r) (if q = r then n else 0) := by
  by_cases h : q = r <;> simp [add, get_set, h]

theorem isZero_iff (s : ResourceSet) : s.isZero = true ↔ s = zero := by
  constructor
  · intro h; ext r
    simpa using (List.all_eq_true.1 h) r (BaseResource.mem_all r)
  · rintro rfl; rfl

theorem shortfall?_eq_none (s delta : ResourceSet) :
    s.shortfall? delta = none ↔ ∀ r, 0 ≤ (s + delta).get r := by
  simp only [shortfall?, Option.map_eq_none_iff, List.find?_eq_none, decide_eq_true_eq, Int.not_lt]
  exact ⟨fun h r => h r (BaseResource.mem_all r), fun h r _ => h r⟩

def fieldNames : List String := BaseResource.all.map BaseResource.word

def toJson (s : ResourceSet) : Json := .object (s.toList.map fun (r, n) => (r.word, .int n))

def ofJson? (j : Json) : Option ResourceSet := do
  let f ← Json.Fields.of? fieldNames j
  return {
    credits := ← f.required "credits" Json.asInt32?
    steel := ← f.required "steel" Json.asInt32?
    titanium := ← f.required "titanium" Json.asInt32?
    plants := ← f.required "plants" Json.asInt32?
    energy := ← f.required "energy" Json.asInt32?
    heat := ← f.required "heat" Json.asInt32? }

end ResourceSet

end MarsRules
