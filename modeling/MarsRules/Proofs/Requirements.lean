import Mathlib.Algebra.Ring.Int.Defs
import MarsRules.Proofs.Solvency

/-! What it takes to meet the requirements of a card. `Requirement.Holds` says it kind by kind, from the
parameters, the board, the catalog and the player's record, with no word on how or in which order it is
found out; the check accepts just what holds, and refuses for the first requirement that does not. -/

namespace MarsRules

/-- How often the card prints the tag; not at all if it is not in the catalog. -/
def Catalog.printed (cat : Catalog) (tag : Tag) (id : CardId) : Nat :=
  (cat.find? id).elim 0 (·.tagCount tag)

namespace Player

def widenings (p : Player) : List LineItem :=
  p.effects.flatMap fun e => e.behavior.outputs.filter (·.kind == .parameterLenience)

/-- The tags on the cards the player has played, and those on the corporation if it is none of them. -/
def tagsShown (p : Player) (cat : Catalog) (tag : Tag) : Nat :=
  (p.played.map (cat.printed tag)).sum +
    p.corporation.elim 0 fun c => if c ∈ p.played then 0 else cat.printed tag c

def sites (p : Player) (board : Board) (tile : TileKind) : List Hex :=
  board.hexes.filter fun h => h.occupant = some { tile, owner := some p.id }

variable {p : Player} {cat : Catalog} {tag : Tag}

theorem modifiers_lenience : p.modifiers .parameterLenience = p.widenings := by
  unfold modifiers widenings Behavior.modifiers
  rw [List.filter_flatMap]
  congr 1
  funext e
  rw [List.filter_filter]
  refine List.filter_congr fun item _ => ?_
  cases hkind : item.kind == .parameterLenience with
  | false => rfl
  | true => rw [eq_of_beq hkind]; rfl

theorem lenience_eq : p.lenience = wrapInt32 (p.widenings.map (·.amount)).sum := by
  have htotal (ns : List Int) : total ns = ns.sum := by
    induction ns with
    | nil => rfl
    | cons n rest ih => rw [total, ih, List.sum_cons]
  unfold lenience
  rw [modifiers_lenience, htotal]

theorem countTags_eq : p.countTags cat tag = p.tagsShown cat tag := by
  have hprinted (id : CardId) : (((cat.find? id).map (·.tags)).getD []).count tag = cat.printed tag id := by
    unfold Catalog.printed
    cases cat.find? id <;> rfl
  unfold countTags tagsShown tableau
  simp only [List.count_flatMap, List.map_append, List.sum_append, Function.comp_def, hprinted]
  congr 1
  cases p.corporation with
  | none => rfl
  | some c => by_cases hc : c ∈ p.played <;> simp [Option.filter, hc]

/-- A corporation that has been played is counted once, and a card that is gone for nothing. -/
example :
    { Player.named "p1" with corporation := some "CORP", played := ["CORP", "GONE"] }.tagsShown
      ⟨[{ id := "CORP", name := "Corp", type := .corporation, tags := [.science] }]⟩ .science = 1 := by
  decide

theorem countTiles_eq {board : Board} {tile : TileKind} :
    board.countTiles tile (some p.id) = (p.sites board tile).length := by
  unfold Board.countTiles sites
  rw [List.countP_eq_length_filter]
  refine congrArg List.length (List.filter_congr fun h _ => ?_)
  unfold Hex.holds
  cases hocc : h.occupant with
  | none => simp
  | some o =>
    rw [Bool.eq_iff_iff]
    cases o
    simp

end Player

namespace Requirement

/-- The number is within the bounds, each let out by `slack`; a bound that is not there leaves its side
open. -/
def Admits (r : Requirement) (slack n : Int) : Prop :=
  (∀ lo ∈ r.min, lo - slack ≤ n) ∧ ∀ hi ∈ r.max, n ≤ hi + slack

def AdmitsParameter (r : Requirement) (rules : Rules) (game : Game) (player : Player)
    (q : GlobalParameter) : Prop :=
  r.Admits ((player.widenings.map (·.amount)).sum * (rules.range q).step) (game.parameters.get q)

def parameter? (r : Requirement) : Option GlobalParameter :=
  match r.kind with
  | .temperature => some .temperature
  | .oxygen => some .oxygen
  | .oceans => some .oceans
  | _ => none

/-- The bounds on a parameter are numbers of 32 bits also when they are let out. -/
def BoundsFit (r : Requirement) (rules : Rules) (player : Player) : Prop :=
  ∀ q ∈ r.parameter?,
    let slack := (player.widenings.map (·.amount)).sum * (rules.range q).step
    (∀ lo ∈ r.min, FitsInt32 (lo - slack)) ∧ ∀ hi ∈ r.max, FitsInt32 (hi + slack)

/-- What the requirement asks for is the case. Of what the rules do not model nothing is asked, except
that a production that is none cannot be had. -/
def Holds (r : Requirement) (cat : Catalog) (rules : Rules) (game : Game) (player : Player) : Prop :=
  match r.kind with
  | .temperature => r.AdmitsParameter rules game player .temperature
  | .oxygen => r.AdmitsParameter rules game player .oxygen
  | .oceans => r.AdmitsParameter rules game player .oceans
  | .terraformRating => r.Admits 0 player.rating
  | .tags => ∀ tag ∈ r.tag, r.Admits 0 (player.tagsShown cat tag)
  | .production => match r.resource with
    | none => ∀ b, r.Admits 0 (player.production.get b)
    | some (.resource b) | some (.production b) => r.Admits 0 (player.production.get b)
    | some _ => False
  | .resource => ∀ b, r.resource = some (.resource b) → r.Admits 0 (player.resources.get b)
  | .cities => r.Admits 0 (player.sites game.board .city).length
  | .greeneries => r.Admits 0 (player.sites game.board .greenery).length
  | .venus | .unknown _ => True

def misnamed? (r : Requirement) : Option ResourceKind :=
  match r.kind, r.resource with
  | .production, some (.resource _) | .production, some (.production _) => none
  | .production, named => named
  | _, _ => none

variable {r : Requirement} {cat : Catalog} {rules : Rules} {game : Game} {player : Player}
  {label : String} {min max : Option Int} {n : Int} {e : Refusal}

/-- The check accepts where `P` is the case, and else it says what is not met. -/
structure Tests (x : Except Refusal Unit) (P : Prop) : Prop where
  ok : x = .ok () ↔ P
  error : ∀ e, x = .error e → ∃ text, e = .requirementNotMet text

theorem Tests.iff {x : Except Refusal Unit} {P Q : Prop} (h : Tests x P) (hq : P ↔ Q) : Tests x Q :=
  ⟨h.ok.trans hq, h.error⟩

theorem Tests.pass : Tests (.ok ()) True :=
  ⟨by simp, by simp⟩

theorem Tests.unless (short : Prop) [Decidable short] {text : String} {x : Except Refusal Unit} {P : Prop}
    (h : Tests x P) : Tests (if short then .error (.requirementNotMet text) else x) (¬ short ∧ P) := by
  by_cases hs : short
  · rw [if_pos hs]
    exact ⟨by simp [hs], fun e he => ⟨text, (Except.error.inj he).symm⟩⟩
  · rw [if_neg hs]
    exact h.iff (by simp [hs])

theorem Tests.each {α : Type} {f : α → Except Refusal Unit} {P : α → Prop} (h : ∀ a, Tests (f a) (P a))
    (as : List α) : Tests (do for a in as do f a) (∀ a ∈ as, P a) := by
  induction as with
  | nil => exact Tests.pass.iff (by simp)
  | cons a rest ih =>
    rw [List.forIn_cons]
    cases ha : f a with
    | ok u => exact ih.iff (by simpa using fun _ => (h a).ok.mp ha)
    | error e =>
      have hnot : ¬ P a := fun hp => by simpa [ha] using (h a).ok.mpr hp
      exact ⟨by simp [bind, Except.bind, hnot], fun e' he => (h a).error e' (ha.trans he)⟩

theorem Tests.within (low high : Int → String) (min max : Option Int) (n : Int) :
    Tests (do
      if let some lo := min then
        if n < lo then throw (.requirementNotMet (low lo))
      if let some hi := max then
        if hi < n then throw (.requirementNotMet (high hi)))
      ((∀ lo ∈ min, lo ≤ n) ∧ ∀ hi ∈ max, n ≤ hi) := by
  cases min with
  | none => cases max with
    | none => exact Tests.pass.iff (by simp)
    | some hi => exact (Tests.pass.unless (hi < n)).iff (by simp)
  | some lo => cases max with
    | none => exact (Tests.pass.unless (n < lo)).iff (by simp)
    | some hi => exact ((Tests.pass.unless (hi < n)).unless (n < lo)).iff (by simp)

theorem checkBounds_tests (label : String) (min max : Option Int) (n : Int) :
    Tests (checkBounds label min max n) ((∀ lo ∈ min, lo ≤ n) ∧ ∀ hi ∈ max, n ≤ hi) :=
  Tests.within _ _ min max n

theorem checkAdmits_tests (label : String) (n : Int) :
    Tests (checkBounds label r.min r.max n) (r.Admits 0 n) :=
  (checkBounds_tests label r.min r.max n).iff (by simp [Admits])

theorem checkTags_tests (tag : Tag) (n : Int) : Tests (r.checkTags tag n) (r.Admits 0 n) :=
  (Tests.within _ _ r.min r.max n).iff (by simp [Admits])

theorem checkParameter_tests {q : GlobalParameter} (hq : r.parameter? = some q)
    (hfits : r.BoundsFit rules player) :
    Tests (r.checkParameter rules q game player) (r.AdmitsParameter rules game player q) := by
  obtain ⟨hmin, hmax⟩ := hfits q hq
  unfold checkParameter
  rw [Player.lenience_eq]
  simp only [wrapInt32_wrapInt32_mul, wrapInt32_sub_wrapInt32, wrapInt32_add_wrapInt32]
  rw [Option.map_congr fun lo hlo => wrapInt32_of_fits (hmin lo hlo),
    Option.map_congr fun hi hhi => wrapInt32_of_fits (hmax hi hhi)]
  exact (checkBounds_tests ..).iff (by simp [AdmitsParameter, Admits])

theorem check_of_misnamed {k : ResourceKind} (h : r.misnamed? = some k) :
    r.check cat rules game player = .error (.unsupported s!"production requirement on {k.word}") ∧
      ¬ r.Holds cat rules game player := by
  unfold misnamed? at h
  split at h
  · cases h
  · cases h
  · next hkind hresource hproduction =>
    unfold check Holds productions
    simp only [hkind, h]
    cases k with
    | resource b => exact (hresource b h).elim
    | production b => exact (hproduction b h).elim
    | _ => exact ⟨rfl, id⟩
  · cases h

theorem check_production (hkind : r.kind = .production) (h : r.misnamed? = none) :
    Tests (r.check cat rules game player) (r.Holds cat rules game player) := by
  have heach (bs : List BaseResource) :
      Tests (do for b in bs do checkBounds s!"{b.word} production" r.min r.max (player.production.get b))
        (∀ b ∈ bs, r.Admits 0 (player.production.get b)) :=
    Tests.each (fun b => checkAdmits_tests _ _) bs
  unfold check Holds productions
  simp only [hkind]
  cases hresource : r.resource with
  | none => exact (heach BaseResource.all).iff (by simp [BaseResource.mem_all])
  | some k =>
    cases k with
    | resource b => exact (heach [b]).iff (by simp)
    | production b => exact (heach [b]).iff (by simp)
    | _ => simp [misnamed?, hkind, hresource] at h

theorem check_tests (h : r.misnamed? = none) (hfits : r.BoundsFit rules player) :
    Tests (r.check cat rules game player) (r.Holds cat rules game player) := by
  cases hkind : r.kind with
  | production => exact check_production hkind h
  | tags =>
    simp only [check, Holds, hkind]
    cases r.tag with
    | none => exact Tests.pass.iff (by simp)
    | some tag => exact (checkTags_tests tag _).iff (by simp [Player.countTags_eq])
  | resource =>
    simp only [check, Holds, hkind]
    split
    · next b hb => exact (checkAdmits_tests _ _).iff (by simp [hb])
    · next hnone => exact Tests.pass.iff (by simpa using fun b hb => (hnone b hb).elim)
  | cities =>
    simp only [check, Holds, hkind, ← Player.countTiles_eq]
    exact checkAdmits_tests _ _
  | greeneries =>
    simp only [check, Holds, hkind, ← Player.countTiles_eq]
    exact checkAdmits_tests _ _
  | temperature | oxygen | oceans =>
    simpa only [check, Holds, hkind] using
      checkParameter_tests (by rw [parameter?, hkind]) hfits
  | terraformRating => simpa only [check, Holds, hkind] using checkAdmits_tests _ _
  | venus => simpa only [check, Holds, hkind] using Tests.pass
  | unknown w => simpa only [check, Holds, hkind] using Tests.pass

theorem check_eq_ok (hfits : r.BoundsFit rules player) :
    r.check cat rules game player = .ok () ↔ r.Holds cat rules game player := by
  cases h : r.misnamed? with
  | none => exact (check_tests h hfits).ok
  | some k =>
    obtain ⟨hcheck, hnot⟩ := check_of_misnamed h
    exact iff_of_false (by simp [hcheck]) hnot

theorem check_eq_error (hfits : r.BoundsFit rules player)
    (h : r.check cat rules game player = .error e) :
    match r.misnamed? with
    | some k => e = .unsupported s!"production requirement on {k.word}"
    | none => ∃ text, e = .requirementNotMet text := by
  split
  · next k hk => exact Except.error.inj (h.symm.trans (check_of_misnamed hk).1)
  · next hnone => exact (check_tests hnone hfits).error e h

end Requirement

def icehouse : Card where
  id := "icehouse"
  name := "Icehouse"
  type := .automated
  requirements := [
    { kind := .temperature, min := some (-12) }, { kind := .terraformRating, min := some 21 }]

/-- A player whose lab lets the bounds on a parameter out by two steps. -/
def researcher (rating : Int) : Player :=
  { Player.named "player" with
    rating
    effects := [⟨"lab", "Lab", 0, .immediate [{ kind := .parameterLenience, amount := 2 }]⟩] }

end MarsRules
