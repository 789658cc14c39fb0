import Mathlib.Algebra.BigOperators.Ring.Finset
import Mathlib.Tactic.Linarith
import Mathlib.Tactic.Ring
import MarsRules.Proofs.Legality

/-! The hexagon that a game is played on. Its coordinates are those within the radius, each of them once
(`Board.hexagon_exactly`); the rows of a column are counted from the middle column outwards, on either
side an arithmetic progression. -/

namespace MarsRules

namespace Coord

/-- How many steps from a hex to a neighbor lead from one to the other. -/
def distance (c d : Coord) : Nat :=
  max (c.q - d.q).natAbs (max (c.r - d.r).natAbs (c.s - d.s).natAbs)

/-- A point of the plane that no coordinate leads further out than this. -/
def Within (n : Int) (c : Coord) : Prop := c.Cubic ∧ |c.q| ≤ n ∧ |c.r| ≤ n ∧ |c.s| ≤ n

instance (n : Int) (c : Coord) : Decidable (c.Within n) := inferInstanceAs (Decidable (_ ∧ _))

section Adjacent

variable {c d : Coord}

theorem distance_comm (c d : Coord) : c.distance d = d.distance c := by
  have hback (a b : Int) : (a - b).natAbs = (b - a).natAbs := by omega
  simp only [distance, hback c.q, hback c.r, hback c.s]

theorem mem_directions {q r : Int} :
    (q, r) ∈ directions ↔ max q.natAbs (max r.natAbs (q + r).natAbs) = 1 := by
  simp only [directions, List.mem_cons, Prod.mk.injEq, List.not_mem_nil, or_false]
  omega

theorem mem_neighbors_iff_distance (hc : c.Cubic) (hd : d.Cubic) :
    d ∈ c.neighbors ↔ c.distance d = 1 := by
  have hstep : d ∈ c.neighbors ↔ (d.q - c.q, d.r - c.r) ∈ directions := by
    rw [mem_neighbors]
    constructor
    · rintro ⟨q, r, hmem, rfl⟩
      simpa [axial] using hmem
    · intro hmem
      refine ⟨_, _, hmem, ?_⟩
      rw [hd.eq_axial]
      simp only [axial]
      congr 1 <;> omega
  have hs : d.q - c.q + (d.r - c.r) = -(d.s - c.s) := by
    unfold Cubic at hc hd
    omega
  rw [hstep, mem_directions, hs, Int.natAbs_neg, distance_comm, distance]

theorem isAdjacent_iff_distance (hc : c.Cubic) (hd : d.Cubic) :
    c.isAdjacent d = true ↔ c.distance d = 1 :=
  isAdjacent_iff.trans (mem_neighbors_iff_distance hc hd)

theorem isAdjacent_comm (hc : c.Cubic) (hd : d.Cubic) : c.isAdjacent d = d.isAdjacent c := by
  rw [Bool.eq_iff_iff, isAdjacent_iff_distance hc hd, isAdjacent_iff_distance hd hc, distance_comm]

theorem isAdjacent_self (hc : c.Cubic) : c.isAdjacent c = false := by
  rw [Bool.eq_false_iff, ne_eq, isAdjacent_iff_distance hc hc]
  simp [distance]

end Adjacent

end Coord

namespace Board

section Between

variable {lo mid hi x : Int}

theorem mem_between : x ∈ between lo hi ↔ lo ≤ x ∧ x ≤ hi := by
  simp only [between, List.mem_map, List.mem_range]
  constructor
  · rintro ⟨i, hi, rfl⟩
    simp only [Int.ofNat_eq_natCast]
    omega
  · intro h
    exact ⟨(x - lo).toNat, by omega, by simp only [Int.ofNat_eq_natCast]; omega⟩

theorem length_between (lo hi : Int) : (between lo hi).length = (hi - lo + 1).toNat := by
  simp [between]

theorem between_append (hlo : lo ≤ mid + 1) (hhi : mid ≤ hi) :
    between lo hi = between lo mid ++ between (mid + 1) hi := by
  have hsplit : (hi - lo + 1).toNat = (mid - lo + 1).toNat + (hi - (mid + 1) + 1).toNat := by omega
  simp only [between]
  rw [hsplit, List.range_add, List.map_append, List.map_map]
  congr 1
  refine List.map_congr_left fun i _ => ?_
  simp only [Function.comp_apply, Int.ofNat_eq_natCast]
  omega

/-- The sum of an arithmetic progression: the number of its members times the mean of the outermost. -/
theorem two_mul_sum_between (a d : Int) (h : lo ≤ hi + 1) :
    2 * ((between lo hi).map fun x => a + d * x).sum = (hi - lo + 1) * (2 * a + d * (lo + hi)) := by
  obtain ⟨k, rfl⟩ : ∃ k : Nat, hi = lo + k - 1 := ⟨(hi - lo + 1).toNat, by omega⟩
  have hcount : (lo + k - 1 - lo + 1).toNat = k := by omega
  simp only [between, hcount, List.map_map]
  clear h hcount
  induction k with
  | zero => simp
  | succ k ih =>
    rw [List.range_succ, List.map_append, List.sum_append, mul_add, ih]
    simp only [List.map_cons, List.map_nil, List.sum_cons, List.sum_nil, Function.comp_apply,
      Int.ofNat_eq_natCast]
    push_cast
    ring

end Between

section Hexagon

variable {n q : Int} {c : Coord}

theorem coords_hexagon (n : Int) : (hexagon n).hexes.map (·.coord) =
    (between (-n) n).flatMap fun q =>
      (between (max (-n) (-q - n)) (min n (-q + n))).map fun r => Coord.axial q r := by
  simp only [hexagon, List.map_flatMap, List.map_map]
  rfl

theorem mem_coords_hexagon : c ∈ (hexagon n).hexes.map (·.coord) ↔ c.Within n := by
  rw [coords_hexagon]
  simp only [List.mem_flatMap, List.mem_map, mem_between]
  constructor
  · rintro ⟨q, hq, r, hr, rfl⟩
    refine ⟨Coord.axial_cubic q r, abs_le.mpr hq, ?_, ?_⟩ <;>
      simp only [Coord.axial, abs_le] <;> omega
  · rintro ⟨hcubic, hq, hr, hs⟩
    rw [abs_le] at hq hr hs
    have hsum : c.q + c.r + c.s = 0 := hcubic
    exact ⟨c.q, hq, c.r, by omega, hcubic.eq_axial.symm⟩

/-- A column has a row less for each step that it is from the middle. -/
theorem length_column (hq : |q| ≤ n) :
    ((between (max (-n) (-q - n)) (min n (-q + n))).length : Int) = 2 * n + 1 - |q| := by
  rw [length_between]
  rcases abs_cases q with ⟨habs, _⟩ | ⟨habs, _⟩ <;> rw [habs] at hq ⊢ <;> omega

theorem length_hexagon (h : 0 ≤ n) : ((hexagon n).hexes.length : Int) = 3 * n * (n + 1) + 1 := by
  have hcolumns : ((hexagon n).hexes.length : Int) =
      ((between (-n) n).map fun q => 2 * n + 1 - |q|).sum := by
    have hlength : (hexagon n).hexes.length = ((between (-n) n).map fun q =>
        (between (max (-n) (-q - n)) (min n (-q + n))).length).sum := by
      simp [hexagon, List.length_flatMap]
    rw [hlength, Nat.cast_list_sum, List.map_map]
    congr 1
    refine List.map_congr_left fun q hq => ?_
    exact length_column (abs_le.mpr (mem_between.mp hq))
  have hleft : (between (-n) 0).map (fun q => 2 * n + 1 - |q|) =
      (between (-n) 0).map fun q => (2 * n + 1) + 1 * q := by
    refine List.map_congr_left fun q hq => ?_
    rw [abs_of_nonpos (mem_between.mp hq).2]
    ring
  have hright : (between (0 + 1) n).map (fun q => 2 * n + 1 - |q|) =
      (between (0 + 1) n).map fun q => (2 * n + 1) + -1 * q := by
    refine List.map_congr_left fun q hq => ?_
    rw [abs_of_nonneg (by have := (mem_between.mp hq).1; omega)]
    ring
  rw [hcolumns, between_append (by omega) h, List.map_append, List.sum_append, hleft, hright]
  have hsumleft := two_mul_sum_between (2 * n + 1) 1 (show -n ≤ 0 + 1 by omega)
  have hsumright := two_mul_sum_between (2 * n + 1) (-1) (show 0 + 1 ≤ n + 1 by omega)
  linarith

theorem hexagon_of_neg (h : n < 0) : hexagon n = {} := by
  have hnone : between (-n) n = [] :=
    List.eq_nil_iff_forall_not_mem.mpr fun q hq => by
      have hq := mem_between.mp hq
      omega
  simp [hexagon, hnone]

theorem blank_of_mem_hexagon {hex : Hex} (h : hex ∈ (hexagon n).hexes) :
    hex.isEmptyLand = true ∧ hex.bonus = {} := by
  obtain ⟨q, -, hmem⟩ := List.mem_flatMap.mp h
  obtain ⟨r, -, rfl⟩ := List.mem_map.mp hmem
  exact ⟨rfl, rfl⟩

/-- The hexagon of a radius holds each coordinate within that radius once and no other, on empty land
without a bonus. There, hexes are neighbors if they are one step from each other. -/
theorem hexagon_exactly (n : Int) :
    (∀ c, ((hexagon n).hexes.map (·.coord)).count c = if c.Within n then 1 else 0) ∧
      (0 ≤ n → ((hexagon n).hexes.length : Int) = 3 * n * (n + 1) + 1) ∧
      (∀ hex ∈ (hexagon n).hexes, hex.isEmptyLand = true ∧ hex.bonus = {}) ∧
      (n < 0 → hexagon n = {}) ∧
      ∀ x ∈ (hexagon n).hexes, ∀ y ∈ (hexagon n).hexes,
        x.coord.isAdjacent y.coord = y.coord.isAdjacent x.coord ∧ x.coord.isAdjacent x.coord = false ∧
          (x.coord.isAdjacent y.coord = true ↔ x.coord.distance y.coord = 1) := by
  refine ⟨fun c => ?_, length_hexagon, fun hex => blank_of_mem_hexagon, hexagon_of_neg,
    fun x hx y hy => ?_⟩
  · rw [List.Nodup.count (hexagon_distinct n)]
    exact if_congr mem_coords_hexagon rfl rfl
  · have hx := hexagon_cubic n x hx
    have hy := hexagon_cubic n y hy
    exact ⟨Coord.isAdjacent_comm hx hy, Coord.isAdjacent_self hx, Coord.isAdjacent_iff_distance hx hy⟩

/-- Two rows and columns around the middle: two hexes of the rim side by side, and a corner across. -/
theorem hexagon_exactly_two :
    let at? (q r : Int) : Hex := { coord := .axial q r, terrain := .land, occupant := none }
    (0 ≤ (2 : Int) ∧ ((hexagon 2).hexes.length : Int) = 3 * 2 * (2 + 1) + 1) ∧
      ((hexagon 2).hexes.map (·.coord)).count (.axial 2 (-1)) = 1 ∧
      ((hexagon 2).hexes.map (·.coord)).count (.axial 2 1) = 0 ∧
      ((-3 : Int) < 0 ∧ hexagon (-3) = {}) ∧
      (at? 2 (-2) ∈ (hexagon 2).hexes ∧ (at? 2 (-2)).isEmptyLand = true) ∧
      (at? 2 (-1) ∈ (hexagon 2).hexes ∧ (at? 2 (-2)).coord.isAdjacent (at? 2 (-1)).coord = true) ∧
      (at? (-2) 2 ∈ (hexagon 2).hexes ∧ (at? 2 (-2)).coord.isAdjacent (at? (-2) 2).coord = false) := by
  intro at?
  have hcorner : at? 2 (-2) ∈ (hexagon 2).hexes := by decide +kernel
  have hrim : at? 2 (-1) ∈ (hexagon 2).hexes := by decide +kernel
  have hacross : at? (-2) 2 ∈ (hexagon 2).hexes := by decide +kernel
  obtain ⟨hcount, hlength, hblank, -, hadjacent⟩ := hexagon_exactly 2
  obtain ⟨-, -, -, hnone, -⟩ := hexagon_exactly (-3)
  refine ⟨⟨by decide, hlength (by decide)⟩, ?_, ?_, ⟨by decide, hnone (by decide)⟩,
    ⟨hcorner, (hblank _ hcorner).1⟩, ⟨hrim, ?_⟩, hacross, ?_⟩
  · rw [hcount, if_pos (by decide)]
  · rw [hcount, if_neg (by decide)]
  · exact (hadjacent _ hcorner _ hrim).2.2.mpr (by decide)
  · rw [Bool.eq_false_iff, ne_eq, (hadjacent _ hcorner _ hacross).2.2]
    decide

example : ([-1, 0, 1, 2].map fun n => (hexagon n).hexes.length) = [0, 1, 7, 19] := by decide +kernel

end Hexagon

end Board

end MarsRules
