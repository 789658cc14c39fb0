import MarsRules.Catalog
import MarsRules.First
import Mathlib.Data.List.Induction
import Mathlib.Data.List.Nodup

/-! What a catalog holds once cards have been added to it one after the other (`Catalog.Holds`), and that
it is the same whether a card is looked for in the list or by the position kept under its id
(`IndexedCatalog`). -/

namespace MarsRules

theorem eraseDups_concat (ids : List CardId) (id : CardId) :
    (ids ++ [id]).eraseDups = if id ∈ ids then ids.eraseDups else ids.eraseDups ++ [id] := by
  rw [List.eraseDups_append, List.removeAll]
  by_cases h : id ∈ ids <;> simp [h, List.eraseDups_cons]

namespace Catalog

variable {cat : Catalog} {c : Card} {id : CardId}

def ids (cat : Catalog) : List CardId := cat.cards.map (·.id)

def preludes (cat : Catalog) : List Card := cat.cards.filter (·.type == .prelude)

theorem ids_add (cat : Catalog) (c : Card) :
    (cat.add c).ids = if c.id ∈ cat.ids then cat.ids else cat.ids ++ [c.id] := by
  obtain ⟨cards⟩ := cat
  unfold ids add
  induction cards with
  | nil => rfl
  | cons d rest ih =>
    by_cases hd : d.id = c.id
    · simp [addTo, hd]
    · simp only [addTo, hd, if_false, List.map_cons, ih, List.mem_cons, Ne.symm hd, false_or]
      split <;> rfl

theorem addTo_of_not_mem {cards : List Card} (h : c.id ∉ cards.map (·.id)) :
    addTo cards c = cards ++ [c] := by
  induction cards with
  | nil => rfl
  | cons d rest ih =>
    rw [List.map_cons, List.mem_cons, not_or] at h
    simp [addTo, Ne.symm h.1, ih h.2]

theorem addTo_of_position {cards : List Card} {i : Nat} (hids : (cards.map (·.id)).Nodup)
    (h : (cards.map (·.id))[i]? = some c.id) : addTo cards c = cards.set i c := by
  induction cards generalizing i with
  | nil => cases h
  | cons d rest ih =>
    obtain ⟨hd, hrest⟩ := List.nodup_cons.mp hids
    cases i with
    | zero => simp [addTo, Option.some.inj h]
    | succ i =>
      have hne : d.id ≠ c.id := fun heq => hd (show d.id ∈ _ from heq ▸ List.mem_of_getElem? h)
      simp [addTo, hne, ih hrest h]

theorem find?_add (cat : Catalog) (c : Card) (id : CardId) :
    (cat.add c).find? id = if id = c.id then some c else cat.find? id := by
  obtain ⟨cards⟩ := cat
  unfold find? add
  induction cards with
  | nil => by_cases hid : id = c.id <;> simp [addTo, hid, @eq_comm _ c.id]
  | cons d rest ih =>
    by_cases hd : d.id = c.id
    · by_cases hid : id = c.id
      · simp [addTo, hd, hid]
      · simp [addTo, hd, hid, Ne.symm hid]
    · by_cases hid : id = c.id
      · have hd' : (d.id == id) = false := by simpa [hid] using hd
        simpa [addTo, hd, hd', hid] using ih
      · simp only [addTo, hd, if_false, List.find?_cons, ih, hid]

theorem ofList_concat (added : List Card) (c : Card) : ofList (added ++ [c]) = (ofList added).add c := by
  simp [ofList]

theorem ids_ofList (added : List Card) : (ofList added).ids = (added.map (·.id)).eraseDups := by
  -- from the end, as the last card is the one that is added to all the others
  induction added using List.reverseRecOn with
  | nil => rfl
  | append_singleton added c ih =>
    rw [ofList_concat, ids_add, List.map_append, List.map_singleton, eraseDups_concat, ← ih]
    congr 1
    rw [ih, List.mem_eraseDups]

theorem nodup_ids_ofList (added : List Card) : (ofList added).ids.Nodup := by
  induction added using List.reverseRecOn with
  | nil => exact List.nodup_nil
  | append_singleton added c ih =>
    rw [ofList_concat, ids_add]
    split
    · exact ih
    · next hc =>
      have hne : ∀ id ∈ (ofList added).ids, id ≠ c.id := fun id hid heq => hc (heq ▸ hid)
      simpa [List.nodup_append] using ⟨ih, hne⟩

theorem find?_ofList (added : List Card) (id : CardId) :
    (ofList added).find? id = added.reverse.find? (·.id == id) := by
  induction added using List.reverseRecOn with
  | nil => rfl
  | append_singleton added c ih =>
    rw [ofList_concat, find?_add, ih, List.reverse_append, List.reverse_singleton, List.singleton_append,
      List.find?_cons]
    by_cases hid : id = c.id
    · simp [hid]
    · have hid' : (c.id == id) = false := by simpa using Ne.symm hid
      rw [if_neg hid, hid']

theorem find?_eq_some (h : cat.ids.Nodup) : cat.find? id = some c ↔ c ∈ cat.cards ∧ c.id = id :=
  find?_key_eq_some h

theorem find?_eq_none : cat.find? id = none ↔ id ∉ cat.ids := by
  simp [find?, ids]

theorem find_eq_ok : cat.find id = .ok c ↔ cat.find? id = some c := by
  unfold find
  cases cat.find? id <;> simp

theorem find_eq_error {e : Refusal} :
    cat.find id = .error e ↔ cat.find? id = none ∧ e = .cardNotFound id := by
  unfold find
  cases cat.find? id <;> simp [eq_comm]

/-- The cards of the three kinds, each in the order of the catalog and together all of it. -/
structure Parts (cat : Catalog) (corporations preludes pool : List Card) : Prop where
  inOrder : ∀ part ∈ [corporations, preludes, pool], part.Sublist cat.cards
  together : List.Perm (corporations ++ preludes ++ pool) cat.cards
  ofCorporations : ∀ c ∈ corporations, c.type = .corporation
  ofPreludes : ∀ c ∈ preludes, c.type = .prelude
  ofPool : ∀ c ∈ pool, c.type ≠ .corporation ∧ c.type ≠ .prelude

theorem parts (cat : Catalog) : cat.Parts cat.corporations cat.preludes cat.pool where
  inOrder := by simp [corporations, preludes, pool]
  together := by
    -- the others are parted from the corporations first, and then among themselves
    have hothers : List.Perm (cat.preludes ++ cat.pool)
        (cat.cards.filter fun c => !(c.type == .corporation)) := by
      have hpreludes : cat.preludes =
          (cat.cards.filter fun c => !(c.type == .corporation)).filter (·.type == .prelude) := by
        rw [preludes, List.filter_filter]
        refine List.filter_congr fun c _ => ?_
        cases c.type <;> rfl
      have hpool : cat.pool =
          (cat.cards.filter fun c => !(c.type == .corporation)).filter fun c => !(c.type == .prelude) := by
        rw [pool, List.filter_filter]
        refine List.filter_congr fun c _ => ?_
        cases c.type <;> rfl
      rw [hpreludes, hpool]
      exact List.filter_append_perm ..
    rw [List.append_assoc]
    exact (hothers.append_left _).trans (List.filter_append_perm ..)
  ofCorporations c hc := by simpa [corporations] using (List.mem_filter.mp hc).2
  ofPreludes c hc := by simpa [preludes] using (List.mem_filter.mp hc).2
  ofPool c hc := by simpa [pool] using (List.mem_filter.mp hc).2

/-- What is in a catalog to which these cards have been added: under each id the last that had it, in the
order in which the ids came up. -/
structure Holds (added : List Card) (cat : Catalog) : Prop where
  ids : cat.ids = (added.map (·.id)).eraseDups
  distinct : cat.ids.Nodup
  last : ∀ c ∈ cat.cards, added.reverse.find? (·.id == c.id) = some c
  found : ∀ id c, cat.find id = .ok c ↔ c ∈ cat.cards ∧ c.id = id
  missing : ∀ id e, cat.find id = .error e ↔ id ∉ added.map (·.id) ∧ e = .cardNotFound id
  parts : cat.Parts cat.corporations cat.preludes cat.pool

theorem holds_ofList (added : List Card) : Holds added (ofList added) where
  ids := ids_ofList added
  distinct := nodup_ids_ofList added
  last c hc := by
    rw [← find?_ofList, find?_eq_some (nodup_ids_ofList added)]
    exact ⟨hc, rfl⟩
  found id c := by rw [find_eq_ok, find?_eq_some (nodup_ids_ofList added)]
  missing id e := by rw [find_eq_error, find?_eq_none, ids_ofList, List.mem_eraseDups]
  parts := parts _

theorem ofText_eq_ok {text : String} : ofText text = .ok cat ↔
    ∃ added, (Json.parse? text >>= Json.asList? Card.ofJson?) = some added ∧ cat = ofList added := by
  unfold ofText
  cases Json.parse? text >>= Json.asList? Card.ofJson? <;> simp [eq_comm]

end Catalog

/-- The position under each id is that of the card with this id. -/
def PositionsAgree (cards : List Card) (positions : Table Nat) : Prop :=
  ∀ id i, positions.get? id = some i ↔ (cards.map (·.id))[i]? = some id

namespace PositionsAgree

variable {cards : List Card} {positions : Table Nat} {c : Card} {id : CardId} {i : Nat}

theorem lt (h : PositionsAgree cards positions) (hi : positions.get? id = some i) : i < cards.length := by
  obtain ⟨hlt, -⟩ := List.getElem?_eq_some_iff.mp ((h id i).mp hi)
  simpa using hlt

theorem nodup (h : PositionsAgree cards positions) : (cards.map (·.id)).Nodup := by
  rw [List.nodup_iff_getElem?_ne_getElem?]
  intro i j hij hj hsame
  have hid := List.getElem?_eq_getElem hj
  have hi := (h _ _).mpr (hsame.trans hid)
  rw [(h _ _).mpr hid] at hi
  cases hi
  omega

theorem not_mem (h : PositionsAgree cards positions) (hnone : positions.get? id = none) :
    id ∉ cards.map (·.id) := by
  intro hmem
  obtain ⟨i, hi⟩ := List.mem_iff_getElem?.mp hmem
  rw [(h id i).mpr hi] at hnone
  cases hnone

/-- A card in place of one with the same id is where the positions say. -/
theorem set (h : PositionsAgree cards positions) (hi : positions.get? c.id = some i) :
    PositionsAgree (cards.set i c) positions := by
  have hsame : (cards.set i c).map (·.id) = cards.map (·.id) := by
    obtain ⟨_, hget⟩ := List.getElem?_eq_some_iff.mp ((h c.id i).mp hi)
    rw [List.map_set, ← hget, List.set_getElem_self]
  unfold PositionsAgree
  rw [hsame]
  exact h

/-- A card with a new id comes last, and so does its position. -/
theorem append (h : PositionsAgree cards positions) (hnone : positions.get? c.id = none) :
    PositionsAgree (cards ++ [c]) (positions.put c.id cards.length) := by
  intro id j
  have hnew : c.id ∉ cards.map (·.id) := h.not_mem hnone
  rw [List.map_append, List.map_singleton, List.getElem?_append, List.length_map]
  by_cases hid : id = c.id
  · subst hid
    rw [Table.get?_put_self]
    split
    · next hlt =>
      refine iff_of_false (fun hj => ?_) fun hj => hnew (List.mem_of_getElem? hj)
      cases hj
      exact Nat.lt_irrefl _ hlt
    · next hge =>
      rw [List.getElem?_singleton]
      split <;> simp <;> omega
  · rw [Table.get?_put_of_ne _ hid, h]
    split
    · rfl
    · next hge =>
      rw [List.getElem?_eq_none (by simpa using hge), List.getElem?_singleton]
      split <;> simp [Ne.symm hid]

end PositionsAgree

/-- A catalog as it is kept for lookups: the cards, and the position of each under its id. -/
structure IndexedCatalog where
  cards : List Card := []
  positions : Table Nat := []
  agree : PositionsAgree cards positions

namespace IndexedCatalog

def empty : IndexedCatalog := ⟨[], [], fun _ _ => by simp [Table.get?]⟩

/-- A card whose id is there takes the position of the one that has it. -/
def add (cat : IndexedCatalog) (c : Card) : IndexedCatalog :=
  match h : cat.positions.get? c.id with
  | some i => ⟨cat.cards.set i c, cat.positions, cat.agree.set h⟩
  | none => ⟨cat.cards ++ [c], cat.positions.put c.id cat.cards.length, cat.agree.append h⟩

def ofList (cards : List Card) : IndexedCatalog := cards.foldl add empty

def find? (cat : IndexedCatalog) (id : CardId) : Option Card :=
  match h : cat.positions.get? id with
  | some i => some (cat.cards.get ⟨i, cat.agree.lt h⟩)
  | none => none

def catalog (cat : IndexedCatalog) : Catalog := ⟨cat.cards⟩

theorem catalog_add (cat : IndexedCatalog) (c : Card) : (cat.add c).catalog = cat.catalog.add c := by
  unfold add
  split
  · next i h => exact congrArg Catalog.mk (Catalog.addTo_of_position cat.agree.nodup ((cat.agree _ _).mp h)).symm
  · next h => exact congrArg Catalog.mk (Catalog.addTo_of_not_mem (cat.agree.not_mem h)).symm

theorem catalog_ofList (added : List Card) : (ofList added).catalog = Catalog.ofList added := by
  induction added using List.reverseRecOn with
  | nil => rfl
  | append_singleton added c ih =>
    rw [Catalog.ofList_concat, ← ih, ← catalog_add]
    simp [ofList]

theorem find?_catalog (cat : IndexedCatalog) (id : CardId) : cat.catalog.find? id = cat.find? id := by
  unfold find?
  split
  · next i h =>
    obtain ⟨hlt, hid⟩ := List.getElem?_eq_some_iff.mp ((cat.agree id i).mp h)
    have hids : cat.catalog.ids.Nodup := cat.agree.nodup
    rw [Catalog.find?_eq_some hids]
    exact ⟨List.get_mem .., by simpa using hid⟩
  · next h => exact Catalog.find?_eq_none.mpr (cat.agree.not_mem h)

end IndexedCatalog

/-- Cards added one after the other, with any ids more than once: each id keeps the place in which it came
up first and has the card that came last, exactly these ids are found, and corporations, preludes and the
pool part the catalog among them. A catalog is read from text just so, and one that looks its cards up by
their positions is no other. -/
theorem catalogs_hold :
    (∀ added, Catalog.Holds added (Catalog.ofList added)) ∧
    (∀ text cat, Catalog.ofText text = .ok cat ↔ ∃ added,
      (Json.parse? text >>= Json.asList? Card.ofJson?) = some added ∧ cat = Catalog.ofList added) ∧
    ∀ added, (IndexedCatalog.ofList added).catalog = Catalog.ofList added ∧
      ∀ id, (IndexedCatalog.ofList added).find? id = (Catalog.ofList added).find? id := by
  refine ⟨Catalog.holds_ofList, fun _ _ => Catalog.ofText_eq_ok, fun added => ?_⟩
  have hsame := IndexedCatalog.catalog_ofList added
  refine ⟨hsame, fun id => ?_⟩
  rw [← IndexedCatalog.find?_catalog, hsame]

end MarsRules
