/-! Counters are numbers of 32 bits, written as integers. What is read has to fit; a sum, a
difference or a product that leaves the range wraps around. The few operations that saturate or
refuse at 32 bits instead say so by name. -/

namespace MarsRules

def minInt32 : Int := -2147483648
def maxInt32 : Int := 2147483647
def maxNat32 : Nat := 4294967295
def maxNat64 : Nat := 18446744073709551615

/-- Representable as a signed number of 32 bits. -/
abbrev FitsInt32 (n : Int) : Prop := minInt32 ≤ n ∧ n ≤ maxInt32

/-- What 32 bits keep of a number. -/
def wrapInt32 (n : Int) : Int := (n + 2147483648) % 4294967296 - 2147483648

/-- Adds to a counter, by a sum that wraps around. Where nothing is added nothing is computed, and
any number stays what it is. -/
def addInt32 (n m : Int) : Int := if m = 0 then n else wrapInt32 (n + m)

/-- The same for numbers that have no sign. -/
def addNat32 (n m : Nat) : Nat := if m = 0 then n else (n + m) % 4294967296

/-- The nearest number that fits. -/
def saturateInt32 (n : Int) : Int := max minInt32 (min maxInt32 n)

def saturateNat32 (n : Nat) : Nat := min maxNat32 n

/-- The number itself where it fits, nothing where it does not. -/
def fitInt32? (n : Int) : Option Int := if FitsInt32 n then some n else none

def total : List Int → Int
  | [] => 0
  | n :: rest => n + total rest

theorem fitInt32?_eq_some {n m : Int} : fitInt32? n = some m ↔ FitsInt32 n ∧ n = m := by
  simp [fitInt32?]

/-! Wrapping. -/

theorem fits_wrapInt32 (n : Int) : FitsInt32 (wrapInt32 n) := by
  simp only [FitsInt32, minInt32, maxInt32, wrapInt32]; omega

theorem wrapInt32_of_fits {n : Int} (h : FitsInt32 n) : wrapInt32 n = n := by
  simp only [FitsInt32, minInt32, maxInt32, wrapInt32] at *; omega

@[simp] theorem wrapInt32_zero : wrapInt32 0 = 0 := rfl

@[simp] theorem wrapInt32_wrapInt32_add (n m : Int) :
    wrapInt32 (wrapInt32 n + m) = wrapInt32 (n + m) := by
  simp only [wrapInt32]; omega

@[simp] theorem wrapInt32_add_wrapInt32 (n m : Int) :
    wrapInt32 (n + wrapInt32 m) = wrapInt32 (n + m) := by
  simp only [wrapInt32]; omega

@[simp] theorem wrapInt32_wrapInt32 (n : Int) : wrapInt32 (wrapInt32 n) = wrapInt32 n := by
  simpa using wrapInt32_wrapInt32_add n 0

/-- Two numbers wrap to the same where they are a number of turns apart. -/
theorem wrapInt32_eq_iff {n m : Int} : wrapInt32 n = wrapInt32 m ↔ 4294967296 ∣ n - m := by
  simp only [wrapInt32]; omega

@[simp] theorem addInt32_zero (n : Int) : addInt32 n 0 = n := if_pos rfl

theorem addInt32_of_fits {n : Int} (h : FitsInt32 n) (m : Int) :
    addInt32 n m = wrapInt32 (n + m) := by
  by_cases hm : m = 0
  · subst hm
    rw [addInt32_zero, Int.add_zero, wrapInt32_of_fits h]
  · exact if_neg hm

theorem addInt32_exact {n m : Int} (h : FitsInt32 (n + m)) : addInt32 n m = n + m := by
  by_cases hm : m = 0
  · simp [hm]
  · rw [addInt32, if_neg hm, wrapInt32_of_fits h]

@[simp] theorem addNat32_zero (n : Nat) : addNat32 n 0 = n := if_pos rfl

theorem addNat32_exact {n m : Nat} (h : n + m ≤ maxNat32) : addNat32 n m = n + m := by
  unfold addNat32 maxNat32 at *
  split <;> omega

theorem dvd_wrapInt32_sub (n : Int) : 4294967296 ∣ wrapInt32 n - n := by
  simp only [wrapInt32]; omega

@[simp] theorem wrapInt32_sub_wrapInt32 (n m : Int) :
    wrapInt32 (n - wrapInt32 m) = wrapInt32 (n - m) := by
  simp only [wrapInt32]; omega

@[simp] theorem wrapInt32_wrapInt32_mul (n m : Int) :
    wrapInt32 (wrapInt32 n * m) = wrapInt32 (n * m) := by
  rw [wrapInt32_eq_iff, ← Int.sub_mul]
  exact Int.dvd_mul_of_dvd_left (dvd_wrapInt32_sub n)

theorem dvd_addInt32_sub (n m : Int) : 4294967296 ∣ addInt32 n m - (n + m) := by
  by_cases hm : m = 0
  · simp [hm]
  · rw [addInt32, if_neg hm]
    exact dvd_wrapInt32_sub _

/-- Amounts that do not cancel may as well be added at once. -/
theorem addInt32_addInt32 {m m' : Int} (h : m + m' = 0 → m = 0) (n : Int) :
    addInt32 (addInt32 n m) m' = addInt32 n (m + m') := by
  by_cases hm : m = 0
  · simp [hm]
  by_cases hm' : m' = 0
  · simp [hm']
  rw [addInt32, if_neg hm', addInt32, if_neg hm, addInt32, if_neg (mt h hm), wrapInt32_wrapInt32_add,
    Int.add_assoc]

/-- Nothing less than a whole turn leads back to where it began. -/
theorem addInt32_eq_self {n m : Int} (hm : -4294967296 < m ∧ m < 4294967296) :
    addInt32 n m = n ↔ m = 0 := by
  refine ⟨fun h => ?_, fun h => h ▸ addInt32_zero n⟩
  have := dvd_addInt32_sub n m
  rw [h] at this
  omega

/-- Counter `k` is `n` with `m` added, as far as 32 bits keep it. -/
def AddsUp (n m k : Int) : Prop := FitsInt32 n → k = wrapInt32 (n + m)

namespace AddsUp

variable {n m k : Int}

@[simp] protected theorem refl (n : Int) : AddsUp n 0 n := fun h => by simp [wrapInt32_of_fits h]

@[simp] theorem add (n m : Int) : AddsUp n m (addInt32 n m) := fun h => addInt32_of_fits h m

theorem of_wrap (h : AddsUp (wrapInt32 n) m k) : k = wrapInt32 (n + m) := by
  rw [h (fits_wrapInt32 n), wrapInt32_wrapInt32_add]

theorem of_zero (h : AddsUp 0 m k) : k = wrapInt32 m := by
  simpa using @of_wrap 0 m k h

theorem trans {m' k' : Int} (h : AddsUp n m k) (h' : AddsUp k m' k') : AddsUp n (m + m') k' := by
  intro hn
  have hk := h hn
  rw [h' (hk ▸ fits_wrapInt32 _), hk, wrapInt32_wrapInt32_add, Int.add_assoc]

@[simp] theorem wrap_iff : AddsUp n (wrapInt32 m) k ↔ AddsUp n m k := by
  simp only [AddsUp, wrapInt32_add_wrapInt32]

@[simp] theorem add_wrap (n m : Int) : AddsUp n m (addInt32 n (wrapInt32 m)) :=
  wrap_iff.mp (.add _ _)

/-- Where the sum fits nothing is lost, whatever the sums on the way did. -/
theorem exact (h : AddsUp n m k) (hn : FitsInt32 n) (hs : FitsInt32 (n + m)) : k = n + m := by
  rw [h hn, wrapInt32_of_fits hs]

theorem fits (h : AddsUp n m k) (hn : FitsInt32 n) : FitsInt32 k := h hn ▸ fits_wrapInt32 _

end AddsUp

end MarsRules
