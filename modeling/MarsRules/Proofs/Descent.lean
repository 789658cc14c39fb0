import Mathlib.Data.DFinsupp.WellFounded
import Mathlib.Order.PiLex
import Mathlib.Order.WithBot

/-! Counters compared from the first on, up to one of them; of those behind it nothing is known. The
order has no endless descent, and a counter that comes down may let all those behind it go up. -/

namespace MarsRules

section UpTo

variable {ι : Type} [LinearOrder ι] {i j k : ι} {s t : ι → Nat}

/-- The counters up to `i`, for comparison. -/
def upTo (i : ι) (s : ι → Nat) : Lex (ι → WithTop Nat) :=
  toLex fun j => if j ≤ i then WithTop.some (s j) else ⊤

/-- What is decided up to `i` stays decided further on. -/
theorem upTo_lt_of_lt (hj : i ≤ j) (hk : i ≤ k) (h : upTo i t < upTo i s) :
    upTo j t < upTo k s := by
  obtain ⟨m, heq, hlt⟩ := h
  have hm : m ≤ i := by
    by_contra hm
    simp [upTo, hm] at hlt
  refine ⟨m, fun n hn => ?_, ?_⟩
  · have hni := hn.le.trans hm
    have := heq n hn
    simpa [upTo, hni, hni.trans hj, hni.trans hk] using this
  · simpa [upTo, hm, hm.trans hj, hm.trans hk] using hlt

variable [Finite ι]

theorem upTo_le (h : ∀ j ≤ i, t j ≤ s j) : upTo i t ≤ upTo i s := by
  refine Pi.toLex_monotone fun j => ?_
  split
  · next hj => exact WithTop.coe_le_coe.mpr (h j hj)
  · exact le_rfl

theorem upTo_lt (h : ∀ j ≤ i, t j ≤ s j) (hi : t i < s i) : upTo i t < upTo i s := by
  refine Pi.toLex_strictMono (Pi.lt_def.mpr ⟨fun j => ?_, i, ?_⟩)
  · dsimp only
    split
    · next hj => exact WithTop.coe_le_coe.mpr (h j hj)
    · exact le_rfl
  · simpa using hi

theorem upTo_le_of_le (hj : i ≤ j) (h : upTo j t ≤ upTo j s) : upTo i t ≤ upTo i s := by
  by_contra hlt
  exact absurd (upTo_lt_of_lt hj hj (not_le.mp hlt)) (not_lt.mpr h)

theorem upTo_lt_self (h : i < j) (s : ι → Nat) : upTo j s < upTo i s := by
  refine Pi.toLex_strictMono (Pi.lt_def.mpr ⟨fun m => ?_, j, ?_⟩)
  · by_cases hm : m ≤ i
    · simp [hm, hm.trans h.le]
    · simp [hm]
  · simp [h.not_ge]

end UpTo

end MarsRules
