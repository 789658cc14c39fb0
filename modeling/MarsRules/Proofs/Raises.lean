import MarsRules.Proofs.Accounts
import MarsRules.Proofs.Clamping

/-! The ratings that whole steps are worth. Where no output lowers a parameter, each raise is of whole
steps or ends at the top of the range; so the steps gained one raise after the other are those gained
from first to last, and none is lost to rounding on the way. The ratings are sums of 32 bits, so all
this is known of them up to whole turns. -/

namespace MarsRules

theorem sumInt32_nonneg {ns : List Int} (h : ∀ n ∈ ns, 0 ≤ n) : 0 ≤ (sumInt32 ns).getD 0 := by
  have hfold : ∀ (ns : List Int) (sum : Option Int), (∀ n ∈ ns, 0 ≤ n) → 0 ≤ sum.getD 0 →
      0 ≤ (ns.foldl (fun sum n => some (sum.elim n fun m => saturateInt32 (m + n))) sum).getD 0 := by
    intro ns
    induction ns with
    | nil => exact fun _ _ hsum => hsum
    | cons n rest ih =>
      intro sum h hsum
      obtain ⟨hn, hrest⟩ := List.forall_mem_cons.mp h
      refine ih _ hrest ?_
      cases sum with
      | none => exact hn
      | some m =>
        have hm : 0 ≤ m := hsum
        show 0 ≤ saturateInt32 (m + n)
        simp only [saturateInt32, minInt32, maxInt32]
        omega
  exact hfold ns none h (Int.le_refl 0)

/-- No output lowers a parameter. -/
def Rising (items : List LineItem) : Prop :=
  ∀ item ∈ items, ∀ q, item.kind = .globalParameter q → 0 ≤ item.amount

theorem Rising.netSteps_nonneg {items : List LineItem} (h : Rising items) (q : GlobalParameter) :
    0 ≤ netSteps q items := by
  unfold netSteps
  rw [steps_eq_amounts]
  refine sumInt32_nonneg fun n hn => ?_
  obtain ⟨item, hitem, rfl⟩ := List.mem_map.mp hn
  obtain ⟨hown, hkind⟩ := List.mem_filter.mp hitem
  exact h item (List.mem_filter.mp hown).1 q (by simpa using hkind)

/-- A range that is no wider than a number of 32 bits can tell. -/
structure ParameterRange.Climbable (r : ParameterRange) : Prop extends r.Valid where
  span : FitsInt32 (r.max - r.min)

/-- Where raises have taken a parameter that began at `first`: whole steps up, or to the top. -/
structure ParameterRange.Climbed (r : ParameterRange) (first n : Int) : Prop where
  lower : first ≤ n
  upper : n ≤ r.max
  steps : r.step ∣ n - first ∨ n = r.max

namespace ParameterRange.Climbed

variable {r : ParameterRange} {first n : Int}

theorem start (h : first ≤ r.max) : r.Climbed first first :=
  ⟨Int.le_refl _, h, .inl (by simp)⟩

theorem raise (h : r.Climbed first n) {steps : Int} (hs : 0 ≤ steps * r.step) :
    r.Climbed first (Min.min r.max (n + steps * r.step)) := by
  obtain ⟨hlower, hupper, hn⟩ := h
  refine ⟨by omega, by omega, ?_⟩
  rcases hn with hn | rfl
  · by_cases hcut : n + steps * r.step ≤ r.max
    · have hsum : Min.min r.max (n + steps * r.step) - first = (n - first) + steps * r.step := by omega
      exact .inl (hsum ▸ Int.dvd_add hn (Int.dvd_mul_left _ _))
    · exact .inr (by omega)
  · exact .inr (by omega)

theorem steps_add (h : r.Climbed first n) {m : Int} (hm : n ≤ m) (hmax : m ≤ r.max) :
    (m - first) / r.step = (n - first) / r.step + (m - n) / r.step := by
  rcases h.steps with hn | rfl
  · have hsum : m - first = (n - first) + (m - n) := by omega
    rw [hsum, Int.add_ediv_of_dvd_left hn]
  · obtain rfl : m = r.max := by omega
    simp

end ParameterRange.Climbed

theorem Rules.moved_of_nonneg {rules : Rules} {q : GlobalParameter} {n steps : Int}
    (hr : (rules.range q).Climbable) (hmin : (rules.range q).min ≤ n)
    (hmax : n ≤ (rules.range q).max) (hs : 0 ≤ steps * (rules.range q).step) :
    rules.moved q n steps = min (rules.range q).max (n + steps * (rules.range q).step) := by
  have := hr.min
  have := hr.max
  have := hr.span
  simp only [moved, saturateInt32, FitsInt32, minInt32, maxInt32] at *
  omega

/-- The whole steps from one set of values to another, all parameters together. -/
def Parameters.stepsTo (rules : Rules) (v v' : Parameters) : Int :=
  total (GlobalParameter.all.map fun q => (v'.get q - v.get q) / (rules.range q).step)

namespace Parameters

variable {rules : Rules} (hr : ∀ q, (rules.range q).Climbable) {first v v' : Parameters}
include hr

theorem stepsTo_nonneg (h : ∀ q, v.get q ≤ v'.get q) : 0 ≤ v.stepsTo rules v' := by
  have heach (q : GlobalParameter) : 0 ≤ (v'.get q - v.get q) / (rules.range q).step :=
    Int.ediv_nonneg (by have := h q; omega) (by have := (hr q).step; omega)
  have := heach .temperature
  have := heach .oxygen
  have := heach .oceans
  simp only [stepsTo, GlobalParameter.all, List.map_cons, List.map_nil, total]
  omega

omit hr in
theorem stepsTo_add (hv : ∀ q, (rules.range q).Climbed (first.get q) (v.get q))
    (h : ∀ q, v.get q ≤ v'.get q) (hmax : ∀ q, v'.get q ≤ (rules.range q).max) :
    first.stepsTo rules v' = first.stepsTo rules v + v.stepsTo rules v' := by
  have hsteps (q : GlobalParameter) := (hv q).steps_add (h q) (hmax q)
  simp only [stepsTo, GlobalParameter.all, List.map_cons, List.map_nil, total, hsteps]
  omega

omit hr in
theorem stepsTo_split {v'' : Parameters}
    (hv : ∀ q, (rules.range q).Climbed (first.get q) (v.get q))
    (hv' : ∀ q, (rules.range q).Climbed (first.get q) (v'.get q) ∧ v.get q ≤ v'.get q)
    (hv'' : ∀ q, (rules.range q).Climbed (first.get q) (v''.get q) ∧ v'.get q ≤ v''.get q) :
    v.stepsTo rules v'' = v.stepsTo rules v' + v'.stepsTo rules v'' := by
  have hbefore := stepsTo_add hv (fun q => (hv' q).2) (fun q => (hv' q).1.upper)
  have hafter := stepsTo_add (fun q => (hv' q).1) (fun q => (hv'' q).2) (fun q => (hv'' q).1.upper)
  have hall := stepsTo_add hv (fun q => Int.le_trans (hv' q).2 (hv'' q).2)
    (fun q => (hv'' q).1.upper)
  omega

theorem gained_eq (hv : v.Within rules) (hv' : v'.Within rules) (h : ∀ q, v.get q ≤ v'.get q)
    (hfit : v.stepsTo rules v' ≤ maxInt32) :
    ParameterChange.gained rules v v' = v.stepsTo rules v' := by
  have heach (q : GlobalParameter) : ParameterChange.stepsGained ⟨q, v.get q, v'.get q⟩ rules =
      (v'.get q - v.get q) / (rules.range q).step := by
    have hup : 0 ≤ v'.get q - v.get q := by have := h q; omega
    have hspan : FitsInt32 (v'.get q - v.get q) := by
      have := (hr q).span
      have := hv q
      have := hv' q
      simp only [FitsInt32, minInt32, maxInt32] at *
      omega
    rw [ParameterChange.stepsGained_eq_floor (c := ⟨q, v.get q, v'.get q⟩) hspan (hr q).step]
    exact congrArg (· / _) (Int.max_eq_right hup)
  have hall : ParameterChange.allSteps rules v v' = v.stepsTo rules v' := by
    simp only [ParameterChange.allSteps, stepsTo, heach]
  have hnonneg := stepsTo_nonneg hr h
  have hfits : FitsInt32 (v.stepsTo rules v') := ⟨Int.le_trans (by decide) hnonneg, hfit⟩
  rw [ParameterChange.gained, hall, wrapInt32_of_fits hfits, Int.max_eq_right hnonneg]

end Parameters

theorem Parameters.Within.of_climbed {rules : Rules} {first v : Parameters} (h : first.Within rules)
    (hv : ∀ q, (rules.range q).Climbed (first.get q) (v.get q)) : v.Within rules :=
  fun q => ⟨Int.le_trans (h q).1 (hv q).lower, (hv q).upper⟩

namespace Ledger

variable {rules : Rules} (hr : ∀ q, (rules.range q).Climbable) {first : Parameters} {l : Ledger}
include hr

theorem enter_climbed (hfirst : first.Within rules)
    (hl : ∀ q, (rules.range q).Climbed (first.get q) (l.parameters.get q)) {items : List LineItem}
    (hitems : Rising items) (q : GlobalParameter) :
    (rules.range q).Climbed (first.get q) ((l.enter rules items).parameters.get q) ∧
      l.parameters.get q ≤ (l.enter rules items).parameters.get q := by
  have hmax := (hl q).upper
  have hmin := (hfirst.of_climbed hl q).1
  show (rules.range q).Climbed _ ((l.parameters.moved rules items).get q) ∧
    _ ≤ (l.parameters.moved rules items).get q
  rw [Parameters.get_moved]
  split
  · exact ⟨hl q, Int.le_refl _⟩
  · have hs : 0 ≤ netSteps q items * (rules.range q).step :=
      Int.mul_nonneg (hitems.netSteps_nonneg q) (by have := (hr q).step; omega)
    rw [rules.moved_of_nonneg (hr q) hmin hmax hs]
    exact ⟨(hl q).raise hs, by omega⟩

theorem enterAll_climbed (hfirst : first.Within rules)
    (hl : ∀ q, (rules.range q).Climbed (first.get q) (l.parameters.get q))
    {commits : List (List LineItem)} (hcommits : ∀ items ∈ commits, Rising items)
    (q : GlobalParameter) :
    (rules.range q).Climbed (first.get q) ((l.enterAll rules commits).parameters.get q) ∧
      l.parameters.get q ≤ (l.enterAll rules commits).parameters.get q := by
  induction commits generalizing l with
  | nil => exact ⟨hl q, Int.le_refl _⟩
  | cons items rest ih =>
    obtain ⟨hitems, hrest⟩ := List.forall_mem_cons.mp hcommits
    have hone := enter_climbed hr hfirst hl hitems
    obtain ⟨hclimbed, hle⟩ := ih (fun q => (hone q).1) hrest
    exact ⟨hclimbed, Int.le_trans (hone q).2 hle⟩

theorem ratings_enter (hstep : rules.ratingPerStep = true) (hfirst : first.Within rules)
    (hl : ∀ q, (rules.range q).Climbed (first.get q) (l.parameters.get q)) {items : List LineItem}
    (hitems : Rising items)
    (hfit : l.parameters.stepsTo rules (l.enter rules items).parameters ≤ maxInt32) :
    (l.enter rules items).ratings = wrapInt32 (l.ratings + (sumOf .terraformRating items +
      l.parameters.stepsTo rules (l.enter rules items).parameters)) := by
  have hone := enter_climbed hr hfirst hl hitems
  rw [← Parameters.gained_eq hr (hfirst.of_climbed hl) (hfirst.of_climbed fun q => (hone q).1)
    (fun q => (hone q).2) hfit]
  simp [enter, hstep]

theorem ratings_enterAll (hstep : rules.ratingPerStep = true) (hfirst : first.Within rules)
    (hl : ∀ q, (rules.range q).Climbed (first.get q) (l.parameters.get q))
    {commits : List (List LineItem)} (hcommits : ∀ items ∈ commits, Rising items)
    (hfit : l.parameters.stepsTo rules (l.enterAll rules commits).parameters ≤ maxInt32) :
    4294967296 ∣ (l.enterAll rules commits).ratings - total (commits.map (sumOf .terraformRating)) -
      (l.ratings + l.parameters.stepsTo rules (l.enterAll rules commits).parameters) := by
  induction commits generalizing l with
  | nil => simp [enterAll, total, Parameters.stepsTo, GlobalParameter.all]
  | cons items rest ih =>
    obtain ⟨hitems, hrest⟩ := List.forall_mem_cons.mp hcommits
    have hone := enter_climbed hr hfirst hl hitems
    have hclimbed := fun q => (hone q).1
    have hlast := enterAll_climbed hr hfirst hclimbed hrest
    have hsplit := Parameters.stepsTo_split hl hone hlast
    have hlater := Parameters.stepsTo_nonneg hr fun q => (hlast q).2
    have hnow := Parameters.stepsTo_nonneg hr fun q => (hone q).2
    change l.parameters.stepsTo rules ((l.enter rules items).enterAll rules rest).parameters ≤ _ at hfit
    have hratings := ratings_enter hr hstep hfirst hl hitems (by omega)
    have hwrap := dvd_wrapInt32_sub (l.ratings + (sumOf .terraformRating items +
      l.parameters.stepsTo rules (l.enter rules items).parameters))
    rw [← hratings] at hwrap
    have hrest := ih hclimbed hrest (by omega)
    show 4294967296 ∣ ((l.enter rules items).enterAll rules rest).ratings -
      (sumOf .terraformRating items + total (rest.map (sumOf .terraformRating))) -
      (l.ratings + l.parameters.stepsTo rules ((l.enter rules items).enterAll rules rest).parameters)
    omega

end Ledger

namespace Run

variable {book : Rulebook} {w₀ w : World} {deeds : List Deed}

end Run

end MarsRules
