import MarsRules.Proofs.Slack

/-! A parameter moves twice through 32 bits before it is cut to its range, and each time what does not
fit is brought to the nearest number that does. As long as the range itself is no wider than such a
number can tell, the cut hides this: what is lost lies beyond the end the parameter stops at. So it makes
no difference how steps the same way are divided, to the parameter or to the steps gained. -/

namespace MarsRules

namespace ParameterRange

/-- A range of numbers of 32 bits, its ends the right way round and no further apart than such a number
can tell. Its step may be any number, zero and negative ones included. -/
structure Spans (r : ParameterRange) : Prop where
  min : FitsInt32 r.min
  max : FitsInt32 r.max
  ends : r.min ≤ r.max
  span : FitsInt32 (r.max - r.min)

def exactly (r : ParameterRange) (current steps : Int) : Int :=
  Max.max r.min (Min.min r.max (current + steps * r.step))

variable {r : ParameterRange} {current m n : Int}

theorem Spans.cut_saturated (hr : r.Spans) (hlower : r.min ≤ current) (hupper : current ≤ r.max) :
    Max.max r.min (Min.min r.max (saturateInt32 (current + saturateInt32 n))) =
      Max.max r.min (Min.min r.max (current + n)) := by
  have := hr.min
  have := hr.max
  have := hr.span
  simp only [saturateInt32, FitsInt32, minInt32, maxInt32] at *
  omega

theorem exactly_mem (current n : Int) (h : r.min ≤ r.max) :
    r.min ≤ r.exactly current n ∧ r.exactly current n ≤ r.max := by
  unfold exactly
  omega

theorem Spans.exactly_sub_fits (hr : r.Spans) (hlower : r.min ≤ current) (hupper : current ≤ r.max)
    (n : Int) : FitsInt32 (r.exactly current n - current) := by
  have hmem := exactly_mem current n hr.ends
  have := hr.span
  simp only [FitsInt32, minInt32, maxInt32] at *
  omega

theorem exactly_sub_le (hlower : r.min ≤ current) (hstep : 1 ≤ r.step) :
    r.exactly current n - current ≤ Max.max 0 n * r.step := by
  unfold exactly
  rcases Int.le_total 0 n with hn | hn
  · have : 0 ≤ n * r.step := Int.mul_nonneg hn (by omega)
    rw [Int.max_eq_right hn]
    omega
  · have : n * r.step ≤ 0 := Int.mul_nonpos_of_nonpos_of_nonneg hn (by omega)
    rw [Int.max_eq_left hn]
    omega

theorem le_exactly (hupper : current ≤ r.max) (hstep : 1 ≤ r.step) (hn : 0 ≤ n) :
    current ≤ r.exactly current n := by
  have : 0 ≤ n * r.step := Int.mul_nonneg hn (by omega)
  unfold exactly
  omega

theorem exactly_le (hlower : r.min ≤ current) (hstep : 1 ≤ r.step) (hn : n ≤ 0) :
    r.exactly current n ≤ current := by
  have := exactly_sub_le (n := n) hlower hstep
  rw [Int.max_eq_left hn] at this
  omega

theorem exactly_up (hlower : r.min ≤ current) (hupper : current ≤ r.max) (hstep : 1 ≤ r.step)
    (hn : 0 ≤ n) : r.exactly current n = current + n * r.step ∨ r.exactly current n = r.max := by
  have : 0 ≤ n * r.step := Int.mul_nonneg hn (by omega)
  unfold exactly
  omega

theorem exactly_add (hlower : r.min ≤ current) (hupper : current ≤ r.max) (hstep : 1 ≤ r.step)
    (hsame : 0 ≤ m ∧ 0 ≤ n ∨ m ≤ 0 ∧ n ≤ 0) :
    r.exactly (r.exactly current m) n = r.exactly current (m + n) := by
  have hways : 0 ≤ m * r.step ∧ 0 ≤ n * r.step ∨ m * r.step ≤ 0 ∧ n * r.step ≤ 0 :=
    hsame.imp
      (fun ⟨hm, hn⟩ => ⟨Int.mul_nonneg hm (by omega), Int.mul_nonneg hn (by omega)⟩)
      fun ⟨hm, hn⟩ => ⟨Int.mul_nonpos_of_nonpos_of_nonneg hm (by omega),
        Int.mul_nonpos_of_nonpos_of_nonneg hn (by omega)⟩
  unfold exactly
  rw [Int.add_mul]
  omega

def wholeSteps (r : ParameterRange) (current steps : Int) : Int :=
  Max.max 0 (r.exactly current steps - current) / r.step

theorem wholeSteps_add (hlower : r.min ≤ current) (hupper : current ≤ r.max) (hstep : 1 ≤ r.step)
    (hsame : 0 ≤ m ∧ 0 ≤ n ∨ m ≤ 0 ∧ n ≤ 0) :
    r.wholeSteps current m + r.wholeSteps (r.exactly current m) n = r.wholeSteps current (m + n) := by
  have hmem := exactly_mem current m (Int.le_trans hlower hupper)
  unfold wholeSteps
  rw [← exactly_add hlower hupper hstep hsame]
  rcases hsame with ⟨hm, hn⟩ | ⟨hm, hn⟩
  · have hfirst : current ≤ r.exactly current m := le_exactly hupper hstep hm
    have hsecond : r.exactly current m ≤ r.exactly (r.exactly current m) n :=
      le_exactly hmem.2 hstep hn
    rw [Int.max_eq_right (by omega), Int.max_eq_right (by omega), Int.max_eq_right (by omega)]
    rcases exactly_up hlower hupper hstep hm with hwhole | hend
    · have hne : r.step ≠ 0 := by omega
      have hsteps : r.exactly current m - current = m * r.step := by omega
      have hrise : r.exactly (r.exactly current m) n - current =
          (r.exactly (r.exactly current m) n - r.exactly current m) + m * r.step := by omega
      rw [hrise, hsteps, Int.add_mul_ediv_right _ _ hne, Int.mul_ediv_cancel _ hne, Int.add_comm]
    · have hlast := (exactly_mem (r.exactly current m) n (Int.le_trans hlower hupper)).2
      have hstay : r.exactly (r.exactly current m) n = r.exactly current m := by omega
      rw [hstay, Int.sub_self, Int.zero_ediv, Int.add_zero]
  · have hfirst : r.exactly current m ≤ current := exactly_le hlower hstep hm
    have hsecond : r.exactly (r.exactly current m) n ≤ r.exactly current m :=
      exactly_le hmem.1 hstep hn
    rw [Int.max_eq_left (by omega), Int.max_eq_left (by omega), Int.max_eq_left (by omega),
      Int.zero_ediv, Int.add_zero]

end ParameterRange

namespace ParameterChange

variable {rules : Rules} {q : GlobalParameter} {c : ParameterChange}

theorem stepsGained_eq_floor (hfits : FitsInt32 (c.after - c.before))
    (hstep : 1 ≤ (rules.range c.parameter).step) :
    c.stepsGained rules = max 0 (c.after - c.before) / (rules.range c.parameter).step := by
  have hone : max 1 (rules.range c.parameter).step = (rules.range c.parameter).step := by omega
  unfold stepsGained
  rw [hone, wrapInt32_of_fits hfits]
  rcases Int.le_total 0 (c.after - c.before) with hup | hdown
  · have hnonneg : 0 ≤ (c.after - c.before) / (rules.range c.parameter).step :=
      Int.ediv_nonneg hup (by omega)
    rw [Int.tdiv_eq_ediv_of_nonneg hup, Int.max_eq_right hup, Int.max_eq_right hnonneg]
  · have hnonpos : (c.after - c.before).tdiv (rules.range c.parameter).step ≤ 0 := by
      -- truncation is symmetric, so the fall is counted as the rise it would be the other way
      have hfall : 0 ≤ c.before - c.after := by omega
      have := Int.tdiv_nonneg hfall (show 0 ≤ (rules.range c.parameter).step by omega)
      rw [← Int.neg_sub, Int.neg_tdiv] at this
      omega
    rw [Int.max_eq_left hdown, Int.max_eq_left hnonpos, Int.zero_ediv]

/-- From any value of a range that 32 bits can span, any number of steps of any size makes the change
that exact numbers make. Its height fits 32 bits again; where a step goes up, the steps gained are the
whole steps in it, neither fewer than none nor more than were asked for. -/
theorem computes_exact (hr : (rules.range q).Spans) {current : Int} (steps : Int)
    (hlower : (rules.range q).min ≤ current) (hupper : current ≤ (rules.range q).max) :
    ∃ c, of? rules q current steps = some c ∧ c.parameter = q ∧ c.before = current ∧
      c.after = max (rules.range q).min
        (min (rules.range q).max (current + steps * (rules.range q).step)) ∧
      FitsInt32 (c.after - c.before) ∧
      (1 ≤ (rules.range q).step →
        c.stepsGained rules * (rules.range q).step ≤ max 0 (c.after - c.before) ∧
        max 0 (c.after - c.before) < (c.stepsGained rules + 1) * (rules.range q).step ∧
        0 ≤ c.stepsGained rules ∧ c.stepsGained rules ≤ max 0 steps) := by
  refine ⟨{ parameter := q, before := current, after := (rules.range q).exactly current steps },
    ?_, rfl, rfl, rfl, ?_, fun hstep => ?_⟩
  · simp only [of?, ParameterRange.clamp?, if_pos hr.ends, Option.map_some, ParameterRange.exactly,
      hr.cut_saturated hlower hupper]
  · exact hr.exactly_sub_fits hlower hupper steps
  · have hpos : 0 < (rules.range q).step := by omega
    have hup : 0 ≤ max 0 ((rules.range q).exactly current steps - current) := by omega
    have hsteps : max 0 ((rules.range q).exactly current steps - current) ≤
        max 0 steps * (rules.range q).step := by
      have := ParameterRange.exactly_sub_le (n := steps) hlower hstep
      have : 0 ≤ max 0 steps * (rules.range q).step := Int.mul_nonneg (by omega) (by omega)
      omega
    rw [stepsGained_eq_floor (hr.exactly_sub_fits hlower hupper steps) hstep]
    exact ⟨Int.ediv_mul_le _ (Int.ne_of_gt hpos), Int.lt_ediv_add_one_mul_self _ hpos,
      Int.ediv_nonneg hup (Int.le_of_lt hpos), Int.ediv_le_of_le_mul hpos hsteps⟩

def wideOxygen : Rules := { oxygen := { min := -1, max := 2147483646, step := 2147483647 } }

/-- Here the product and the sum both saturate, and the change is the exact one all the same. -/
theorem computes_exact_saturated :
    saturateInt32 (2147483647 * 2147483647) ≠ 2147483647 * 2147483647 ∧
    saturateInt32 (5 + 2147483647) ≠ 5 + 2147483647 ∧
    ∃ c, of? wideOxygen .oxygen 5 2147483647 = some c ∧ c.after = 2147483646 ∧
      c.stepsGained wideOxygen = 0 := by
  have hr : (wideOxygen.range .oxygen).Spans := ⟨by decide, by decide, by decide, by decide⟩
  have hlower : (wideOxygen.range .oxygen).min ≤ 5 := by decide
  obtain ⟨c, hc, -, hbefore, hafter, -, hgained⟩ := computes_exact hr 2147483647 hlower (by decide)
  obtain ⟨hle, -, hnonneg, -⟩ := hgained (by decide)
  refine ⟨by decide, by decide, c, hc, hafter, ?_⟩
  rw [hafter, hbefore] at hle
  change _ * (2147483647 : Int) ≤ 2147483641 at hle
  omega

theorem of?_exactly (hr : (rules.range q).Spans) {current : Int} (steps : Int)
    (hlower : (rules.range q).min ≤ current) (hupper : current ≤ (rules.range q).max) :
    of? rules q current steps = some ⟨q, current, (rules.range q).exactly current steps⟩ := by
  simp only [of?, ParameterRange.clamp?, if_pos hr.ends, Option.map_some, ParameterRange.exactly,
    hr.cut_saturated hlower hupper]

/-- Steps the same way, up or down, lead as far in two moves as in one, and the steps gained on the two
are those gained on the one, also where the end of the range cuts the last of them short. -/
theorem of?_add (hr : (rules.range q).Spans) (hstep : 1 ≤ (rules.range q).step) {current : Int}
    (hlower : (rules.range q).min ≤ current) (hupper : current ≤ (rules.range q).max) {a b : Int}
    (hsame : 0 ≤ a ∧ 0 ≤ b ∨ a ≤ 0 ∧ b ≤ 0) :
    ∃ first second whole, of? rules q current a = some first ∧
      of? rules q first.after b = some second ∧ of? rules q current (a + b) = some whole ∧
      second.after = whole.after ∧
      first.stepsGained rules + second.stepsGained rules = whole.stepsGained rules := by
  have hmem := ParameterRange.exactly_mem current a hr.ends
  refine ⟨_, _, _, of?_exactly hr a hlower hupper, of?_exactly hr b hmem.1 hmem.2,
    of?_exactly hr (a + b) hlower hupper, ParameterRange.exactly_add hlower hupper hstep hsame, ?_⟩
  rw [stepsGained_eq_floor (hr.exactly_sub_fits hlower hupper a) hstep,
    stepsGained_eq_floor (hr.exactly_sub_fits hmem.1 hmem.2 b) hstep,
    stepsGained_eq_floor (hr.exactly_sub_fits hlower hupper (a + b)) hstep]
  exact ParameterRange.wholeSteps_add hlower hupper hstep hsame

/-- From 5 degrees the second step is cut short at 8, and is not gained either way. -/
theorem of?_add_temperature :
    ∃ first second whole, of? {} .temperature 5 1 = some first ∧
      of? {} .temperature first.after 1 = some second ∧ of? {} .temperature 5 2 = some whole ∧
      second.after = whole.after ∧ whole.after = 8 ∧
      first.stepsGained {} + second.stepsGained {} = whole.stepsGained {} ∧
      whole.stepsGained {} = 1 := by
  let rules : Rules := {}
  have hr : (rules.range .temperature).Spans := ⟨by decide, by decide, by decide, by decide⟩
  obtain ⟨first, second, whole, hfirst, hsecond, hwhole, hafter, hgained⟩ :=
    @of?_add rules .temperature hr (by decide) 5 (by decide) (by decide) 1 1 (by decide)
  have height : of? rules .temperature 5 2 = some ⟨.temperature, 5, 8⟩ := by decide
  obtain rfl : ⟨.temperature, 5, 8⟩ = whole := Option.some.inj (height.symm.trans hwhole)
  exact ⟨first, second, _, hfirst, hsecond, hwhole, hafter, rfl, hgained, rfl⟩

end ParameterChange

end MarsRules
