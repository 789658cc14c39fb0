import MarsRules.Payment
import MarsRules.Proofs.Rereading

/-! The substitutes of a payment stand in the order of their kinds, one row a kind, in whatever order
they were offered (`Payment.inOrder_insertAll`), and rows that stand in order are put in as they are
(`Payment.insertAll_inOrder`). -/

namespace MarsRules

namespace ResourceKind

theorem mem_known {k : ResourceKind} (h : k.isUnknown = false) : k ∈ known := by
  cases k with
  | resource r | production r => cases r <;> decide
  | tilePlacement t | tile t => cases t <;> decide
  | cardStorage s => cases s <;> decide
  | globalParameter p => cases p <;> decide
  | unknown => cases h
  | terraformRating | discount | parameterLenience | valueModifier | defense | paymentSubstitute
  | cardDraw | cardTake | cardPeek => decide

theorem idxOf_known_lt {k : ResourceKind} (h : k.isUnknown = false) :
    known.idxOf k < known.length := List.idxOf_lt_length_iff.mpr (mem_known h)

theorem idxOf_unknown (w : String) : known.idxOf (unknown w) = known.length :=
  List.idxOf_of_notMem (by
    simp [known, BaseResource.all, TileKind.all, StorageResource.all, GlobalParameter.all])

theorem eq_unknown {k : ResourceKind} (h : k.isUnknown = true) : ∃ w, k = unknown w := by
  cases k <;> first | exact ⟨_, rfl⟩ | simp [isUnknown] at h

variable {a b c : ResourceKind}

/-- The place among the known kinds tells them apart; the unknown ones have their words. -/
theorem precedes_iff : a.precedes b = true ↔
    known.idxOf a < known.idxOf b ∨ known.idxOf a = known.idxOf b ∧ a.word < b.word := by
  cases ha : a.isUnknown with
  | true =>
    obtain ⟨v, rfl⟩ := eq_unknown ha
    cases hb : b.isUnknown with
    | true =>
      obtain ⟨w, rfl⟩ := eq_unknown hb
      simp [precedes, idxOf_unknown, word]
    | false =>
      have hlt := idxOf_known_lt hb
      have hnot : (unknown v).precedes b = false := by cases b <;> first | rfl | simp [isUnknown] at hb
      rw [hnot, idxOf_unknown, Bool.false_eq_true, false_iff]
      omega
  | false =>
    have hlt := idxOf_known_lt ha
    cases hb : b.isUnknown with
    | true =>
      obtain ⟨w, rfl⟩ := eq_unknown hb
      have hyes : a.precedes (unknown w) = true := by cases a <;> first | rfl | simp [isUnknown] at ha
      rw [hyes, idxOf_unknown]
      simpa using .inl hlt
    | false =>
      have hplace : a.precedes b = decide (known.idxOf a < known.idxOf b) := by
        cases a <;> cases b <;> first | rfl | simp [isUnknown] at ha hb
      rw [hplace, decide_eq_true_eq]
      refine ⟨.inl, fun h => h.elim id fun ⟨heq, hword⟩ => ?_⟩
      rw [(List.idxOf_inj (mem_known ha)).mp heq] at hword
      exact absurd hword (String.lt_irrefl _)

theorem precedes_trans (h : a.precedes b = true) (h' : b.precedes c = true) :
    a.precedes c = true := by
  rw [precedes_iff] at *
  rcases h with h | ⟨h, hw⟩ <;> rcases h' with h' | ⟨h', hw'⟩
  · exact .inl (Nat.lt_trans h h')
  · exact .inl (h' ▸ h)
  · exact .inl (h ▸ h')
  · exact .inr ⟨h.trans h', String.lt_trans hw hw'⟩

theorem precedes_asymm (h : a.precedes b = true) : b.precedes a = false := by
  rw [Bool.eq_false_iff]
  intro h'
  have hself := precedes_trans h h'
  rw [precedes_iff] at hself
  exact hself.elim (Nat.lt_irrefl _) fun hw => String.lt_irrefl _ hw.2

theorem precedes_of_ne (h : a ≠ b) (hb : b.precedes a = false) : a.precedes b = true := by
  rw [Bool.eq_false_iff, ne_eq, precedes_iff, not_or, not_and] at hb
  rw [precedes_iff]
  obtain ⟨hplace, hword⟩ := hb
  by_cases heq : known.idxOf a = known.idxOf b
  · refine .inr ⟨heq, Decidable.byContradiction fun hnot => h ?_⟩
    have hwords : a.word = b.word :=
      String.le_antisymm (String.not_lt.mp (hword heq.symm)) (String.not_lt.mp hnot)
    cases ha : a.isUnknown with
    | false => exact (List.idxOf_inj (mem_known ha)).mp heq
    | true =>
      cases hb : b.isUnknown with
      | false => exact ((List.idxOf_inj (mem_known hb)).mp heq.symm).symm
      | true =>
        obtain ⟨v, rfl⟩ := eq_unknown ha
        obtain ⟨w, rfl⟩ := eq_unknown hb
        exact congrArg unknown hwords
  · exact .inl (by omega)

end ResourceKind

namespace Payment

/-- Rows in the order of their kinds. -/
def InOrder (rows : List (ResourceKind × Int)) : Prop :=
  rows.Pairwise fun x y => x.1.precedes y.1 = true

/-- Sets the amounts of all these substitutes. -/
def insertAll (offered rows : List (ResourceKind × Int)) : List (ResourceKind × Int) :=
  offered.foldl (fun rows (kind, n) => insert kind n rows) rows

variable {kind : ResourceKind} {n : Int} {rows offered : List (ResourceKind × Int)}

theorem mem_insert {x : ResourceKind × Int} (h : x ∈ insert kind n rows) :
    x = (kind, n) ∨ x ∈ rows := by
  induction rows with
  | nil => simpa [insert] using h
  | cons row rest ih =>
    obtain ⟨k, m⟩ := row
    unfold insert at h
    split at h
    · exact (List.mem_cons.mp h).imp_right (List.mem_cons_of_mem _)
    · split at h
      · exact List.mem_cons.mp h
      · rcases List.mem_cons.mp h with rfl | h
        · exact .inr (List.mem_cons_self ..)
        · exact (ih h).imp_right (List.mem_cons_of_mem _)

theorem inOrder_insert (h : InOrder rows) (kind : ResourceKind) (n : Int) :
    InOrder (insert kind n rows) := by
  induction rows with
  | nil => exact List.pairwise_singleton _ _
  | cons row rest ih =>
    obtain ⟨k, m⟩ := row
    obtain ⟨hk, hrest⟩ := List.pairwise_cons.mp h
    unfold insert
    split
    · next heq => exact List.pairwise_cons.mpr ⟨heq ▸ hk, hrest⟩
    · next hne =>
      split
      · next hbefore =>
        refine List.pairwise_cons.mpr ⟨fun x hx => ?_, h⟩
        rcases List.mem_cons.mp hx with rfl | hx
        · exact hbefore
        · exact ResourceKind.precedes_trans hbefore (hk x hx)
      · next hafter =>
        refine List.pairwise_cons.mpr ⟨fun x hx => ?_, ih hrest⟩
        rcases mem_insert hx with rfl | hx
        · exact ResourceKind.precedes_of_ne hne (by simpa using hafter)
        · exact hk x hx

theorem inOrder_insertAll (h : InOrder rows) (offered : List (ResourceKind × Int)) :
    InOrder (insertAll offered rows) := by
  induction offered generalizing rows with
  | nil => exact h
  | cons row rest ih => exact ih (inOrder_insert h row.1 row.2)

theorem mem_insertAll {x : ResourceKind × Int} (h : x ∈ insertAll offered rows) :
    x ∈ offered ∨ x ∈ rows := by
  induction offered generalizing rows with
  | nil => exact .inr h
  | cons row rest ih =>
    rcases ih h with h | h
    · exact .inl (List.mem_cons_of_mem _ h)
    · rcases mem_insert h with rfl | h
      · exact .inl (List.mem_cons_self ..)
      · exact .inr h

theorem insert_last (h : ∀ x ∈ rows, x.1.precedes kind = true) :
    insert kind n rows = rows ++ [(kind, n)] := by
  induction rows with
  | nil => rfl
  | cons row rest ih =>
    obtain ⟨k, m⟩ := row
    obtain ⟨hk, hrest⟩ := List.forall_mem_cons.mp h
    have hafter := ResourceKind.precedes_asymm hk
    have hne : k ≠ kind := fun heq => by
      subst heq
      exact absurd (hk.symm.trans hafter) (by decide)
    simp [insert, hne, hafter, ih hrest]

theorem insertAll_inOrder (h : InOrder (rows ++ offered)) : insertAll offered rows = rows ++ offered := by
  induction offered generalizing rows with
  | nil => simp [insertAll]
  | cons row rest ih =>
    have hlast : insert row.1 row.2 rows = rows ++ [row] :=
      insert_last fun x hx => (List.pairwise_append.mp h).2.2 x hx row (List.mem_cons_self ..)
    rw [List.append_cons] at h ⊢
    rw [← ih h, ← hlast]
    rfl

/-- Substitutes as a table. -/
def table (rows : List (ResourceKind × Int)) : Table Int := rows.map fun (kind, n) => (kind.word, n)

/-- The substitutes that a table offers, in order. -/
def ofTable (t : Table Int) : List (ResourceKind × Int) :=
  t.foldl (fun rows (w, n) => insert (.ofWord w) n rows) []

theorem ofTable_eq (t : Table Int) :
    ofTable t = insertAll (t.map fun (w, n) => (.ofWord w, n)) [] := by
  unfold ofTable insertAll
  rw [List.foldl_map]

theorem inOrder_ofTable (t : Table Int) : InOrder (ofTable t) :=
  ofTable_eq t ▸ inOrder_insertAll List.Pairwise.nil _

theorem mem_ofTable {t : Table Int} {x : ResourceKind × Int} (h : x ∈ ofTable t) :
    ResourceKind.ofWord x.1.word = x.1 ∧ ∃ row ∈ t, row.2 = x.2 := by
  rw [ofTable_eq] at h
  rcases mem_insertAll h with h | h
  · obtain ⟨row, hrow, rfl⟩ := List.mem_map.mp h
    exact ⟨congrArg _ (ResourceKind.word_ofWord _), row, hrow, rfl⟩
  · cases h

theorem ofTable_table (horder : InOrder rows) (h : ∀ x ∈ rows, ResourceKind.ofWord x.1.word = x.1) :
    ofTable (table rows) = rows := by
  have hoffered : ((table rows).map fun (w, n) => (ResourceKind.ofWord w, n)) = rows := by
    unfold table
    rw [List.map_map]
    exact (List.map_congr_left fun x hx => congrArg (·, x.2) (h x hx)).trans (List.map_id rows)
  rw [ofTable_eq, hoffered]
  exact insertAll_inOrder horder

/-- No kind stands in order twice, and no two kinds that can be read have one word. -/
theorem nodup_keys_table (horder : InOrder rows)
    (h : ∀ x ∈ rows, ResourceKind.ofWord x.1.word = x.1) : (table rows).keys.Nodup := by
  unfold Table.keys table
  rw [List.map_map]
  refine List.pairwise_map.mpr (horder.imp_of_mem fun {x y} hx hy hxy heq => ?_)
  have hsame : x.1 = y.1 := (h x hx).symm.trans ((congrArg _ heq).trans (h y hy))
  have hself := ResourceKind.precedes_asymm hxy
  rw [hsame] at hxy hself
  exact absurd (hxy.symm.trans hself) (by decide)

end Payment

end MarsRules
