import Mathlib.Data.List.Forall2
import MarsRules.Json.Reader

/-! Reading back what was written. A reader and a writer fit (`Json.Fits`) if the reader gives again, for
what the writer makes of it, whatever it has once given. A record fits if each of its fields is found
again under its name, or was left out only where that says the same (`Json.record_fits`). -/

namespace MarsRules

namespace Table

variable {α : Type} {key : String}

theorem mem_keys_put {t : Table α} {k : String} {a : α} :
    k ∈ (t.put key a).keys ↔ k = key ∨ k ∈ t.keys := by
  induction t with
  | nil => simp [put, keys]
  | cons row rest ih =>
    obtain ⟨l, b⟩ := row
    simp only [keys, List.map_cons, List.mem_cons] at ih ⊢
    by_cases h : l = key
    · simp [put, h]
    · simp only [put, h, if_false, List.map_cons, List.mem_cons, ih, or_left_comm]

theorem nodup_keys_put {t : Table α} (h : t.keys.Nodup) (a : α) : (t.put key a).keys.Nodup := by
  induction t with
  | nil => simp [put, keys]
  | cons row rest ih =>
    obtain ⟨l, b⟩ := row
    obtain ⟨hl, hrest⟩ := List.nodup_cons.mp (show (l :: keys rest).Nodup from h)
    unfold put
    split
    · next hk => exact hk ▸ h
    · next hk =>
      have hmem : l ∉ (put rest key a).keys := by simp [mem_keys_put, hk, hl]
      exact List.nodup_cons.mpr ⟨hmem, ih hrest⟩

theorem forall_mem_put {p : α → Prop} {t : Table α} {a : α} (h : ∀ row ∈ t, p row.2) (ha : p a) :
    ∀ row ∈ t.put key a, p row.2 := by
  induction t with
  | nil => simpa [put] using ha
  | cons row rest ih =>
    obtain ⟨l, b⟩ := row
    obtain ⟨hb, hrest⟩ := List.forall_mem_cons.mp h
    unfold put
    split
    · exact List.forall_mem_cons.mpr ⟨ha, hrest⟩
    · exact List.forall_mem_cons.mpr ⟨hb, ih hrest⟩

theorem put_of_not_mem {t : Table α} (h : key ∉ t.keys) (a : α) : t.put key a = t ++ [(key, a)] := by
  induction t with
  | nil => rfl
  | cons row rest ih =>
    obtain ⟨l, b⟩ := row
    obtain ⟨hl, hrest⟩ : key ≠ l ∧ key ∉ keys rest := by simpa [keys] using h
    simp [put, hl.symm, ih hrest]

theorem get?_eq_none {t : Table α} (h : ∀ row ∈ t, row.1 ≠ key) : t.get? key = none := by
  induction t with
  | nil => rfl
  | cons row rest ih =>
    obtain ⟨hrow, hrest⟩ := List.forall_mem_cons.mp h
    simp [get?, hrow, ih hrest]

end Table

namespace Json

variable {α : Type} {item : Json → Option α} {write : α → Json}

/-- Whatever the reader gives, it gives again for what the writer makes of it, which is not null. -/
structure Fits (read : Json → Option α) (write : α → Json) : Prop where
  reread : ∀ {j a}, read j = some a → read (write a) = some a
  ne_null : ∀ a, write a ≠ .null

theorem asBool?_fits : Fits asBool? .bool := ⟨fun _ => rfl, fun _ => nofun⟩

theorem asText?_fits : Fits asText? .string := ⟨fun _ => rfl, fun _ => nofun⟩

theorem asInt32?_fits : Fits asInt32? .int := by
  refine ⟨fun {j n} h => ?_, fun _ => nofun⟩
  cases j with
  | int m =>
    obtain ⟨hm, rfl⟩ := fitInt32?_eq_some.mp h
    exact h
  | _ => cases h

theorem asNat?_fits (bound : Nat) : Fits (asNat? bound) ofNat := by
  refine ⟨fun {j n} h => ?_, fun _ => nofun⟩
  cases j with
  | int m =>
    simp only [asNat?, Option.ite_none_right_eq_some, Option.some.injEq] at h
    obtain ⟨⟨hm, hb⟩, rfl⟩ := h
    simp [asNat?, ofNat, Int.toNat_of_nonneg hm, hm, hb]
  | _ => cases h

/-- A closed vocabulary fits if each term is written with its own word. -/
theorem asTerm?_fits {term : String → Option α} {word : α → String}
    (h : ∀ {w a}, term w = some a → term (word a) = some a) :
    Fits (asTerm? term) fun a => .string (word a) := by
  refine ⟨fun {j a} hj => ?_, fun _ => nofun⟩
  unfold asTerm? at hj
  split at hj
  · exact h hj
  · exact h hj
  · cases hj

/-- An open vocabulary fits if each word is written as it was read. -/
theorem asWord?_fits {term : String → α} {word : α → String} (h : ∀ w, word (term w) = w) :
    Fits (asWord? term) fun a => .string (word a) := by
  refine ⟨fun {j a} hj => ?_, fun _ => nofun⟩
  obtain ⟨w, -, rfl⟩ := Option.map_eq_some_iff.mp hj
  show some (term (word (term w))) = _
  rw [h]

theorem asList?_fits (h : Fits item write) : Fits (asList? item) (ofList write) := by
  refine ⟨fun {j as} hj => ?_, fun _ => nofun⟩
  cases j with
  | array items =>
    show (as.map write).mapM item = some as
    replace hj : items.mapM item = some as := hj
    induction items generalizing as with
    | nil => cases hj; rfl
    | cons j rest ih =>
      simp only [List.mapM_cons, Option.bind_eq_bind, Option.bind_eq_some_iff, Option.pure_def,
        Option.some.injEq] at hj
      obtain ⟨a, ha, as, has, rfl⟩ := hj
      simp [h.reread ha, ih has]
  | _ => cases hj

theorem putAll_keys {fields : List (String × Json)} {u t : Table α} (hk : u.keys.Nodup)
    (hr : ∀ row ∈ u, ∃ j, item j = some row.2)
    (h : fields.foldlM (fun t (key, j) => (item j).map (Table.put t key)) u = some t) :
    t.keys.Nodup ∧ ∀ row ∈ t, ∃ j, item j = some row.2 := by
  induction fields generalizing u with
  | nil =>
    cases h
    exact ⟨hk, hr⟩
  | cons field rest ih =>
    obtain ⟨t₁, ht₁, h⟩ := Option.bind_eq_some_iff.mp h
    obtain ⟨a, ha, rfl⟩ := Option.map_eq_some_iff.mp ht₁
    exact ih (Table.nodup_keys_put hk _)
      (Table.forall_mem_put (p := fun a => ∃ j, item j = some a) hr ⟨_, ha⟩) h

theorem asTable?_keys {j : Json} {t : Table α} (h : asTable? item j = some t) :
    t.keys.Nodup ∧ ∀ row ∈ t, ∃ j, item j = some row.2 := by
  cases j with
  | object fields => exact putAll_keys (u := []) List.nodup_nil (by simp) h
  | _ => cases h

theorem putAll_rows {u t : Table α} (hk : (u ++ t).keys.Nodup)
    (hr : ∀ row ∈ t, item (write row.2) = some row.2) :
    (t.map fun (key, a) => (key, write a)).foldlM
      (fun t (key, j) => (item j).map (Table.put t key)) u = some (u ++ t) := by
  induction t generalizing u with
  | nil => simp
  | cons row rest ih =>
    obtain ⟨key, a⟩ := row
    obtain ⟨ha, hrest⟩ := List.forall_mem_cons.mp hr
    have hnew : key ∉ u.keys := by
      simp only [Table.keys, List.map_append, List.map_cons, List.nodup_append] at hk
      exact fun hmem => hk.2.2 _ hmem _ (List.mem_cons_self ..) rfl
    have hrow : (item (write a)).map (Table.put u key) = some (u ++ [(key, a)]) := by
      rw [ha, Option.map_some, Table.put_of_not_mem hnew]
    rw [List.append_cons] at hk ⊢
    exact Option.bind_eq_some_iff.mpr ⟨_, hrow, ih hk hrest⟩

theorem asTable?_rows {t : Table α} (hk : t.keys.Nodup)
    (hr : ∀ row ∈ t, item (write row.2) = some row.2) :
    asTable? item (.object (t.map fun (key, a) => (key, write a))) = some t :=
  putAll_rows (u := []) hk hr

theorem asTable?_fits (h : Fits item write) :
    Fits (asTable? item) fun t => .object (t.map fun (key, a) => (key, write a)) := by
  refine ⟨fun {j t} ht => ?_, fun _ => nofun⟩
  obtain ⟨hk, hr⟩ := asTable?_keys ht
  exact asTable?_rows hk fun row hmem => (hr row hmem).elim fun _ hj => h.reread hj

/-- What is there is told from nothing, as it is not written as null. -/
theorem asNullable?_ofOption {o : Option α} (h : ∀ a ∈ o, item (write a) = some a ∧ write a ≠ .null) :
    asNullable? item (ofOption write o) = some o := by
  cases o with
  | none => rfl
  | some a =>
    obtain ⟨ha, hnull⟩ := h a rfl
    show asNullable? item (write a) = _
    unfold asNullable?
    split
    · next hj => exact absurd hj hnull
    · rw [ha, Option.map_some]

theorem Fits.nullable_reread (h : Fits item write) {j : Json} {o : Option α}
    (hj : asNullable? item j = some o) : ∀ a ∈ o, item (write a) = some a ∧ write a ≠ .null := by
  unfold asNullable? at hj
  split at hj
  · cases hj
    simp
  · obtain ⟨b, hb, rfl⟩ := Option.map_eq_some_iff.mp hj
    simpa using ⟨h.reread hb, h.ne_null b⟩

/-! Fields of a record. -/

namespace Entry

/-- Nothing, or something under this name. -/
def Under (name : String) (e : Entry) : Prop := ∀ x ∈ e, x.1 = name

@[simp] theorem under_always (name : String) (j : Json) : Under name (always name j) := by
  simp [Under, always]

@[simp] theorem under_ifSome (name : String) (o : Option α) : Under name (ifSome name write o) := by
  simp [Under, ifSome]

@[simp] theorem under_ifAny (name : String) (as : List α) : Under name (ifAny name write as) := by
  cases as <;> simp [Under, ifAny]

/-- What the entry says, if it is there. -/
def held (e : Entry) : Option Json := e.map (·.2)

end Entry

namespace Fields

variable {f g : Fields} {name : String} {names : List String} {entries : List Entry}

/-- Under each name the record gives what the entry at its place holds. -/
def Holds (f : Fields) : List String → List Entry → Prop
  | name :: names, e :: entries => f.find? name = e.held ∧ f.Holds names entries
  | _, _ => True

theorem Holds.congr (h : ∀ name ∈ names, g.find? name = f.find? name) (hf : f.Holds names entries) :
    g.Holds names entries := by
  induction names generalizing entries with
  | nil => trivial
  | cons name names ih =>
    cases entries with
    | nil => trivial
    | cons e entries =>
      obtain ⟨hname, hnames⟩ := List.forall_mem_cons.mp h
      exact ⟨hname.trans hf.1, ih hnames hf.2⟩

/-- The fields of a record that was written with these entries. -/
def written (entries : List Entry) : Fields := ⟨true, entries.filterMap id⟩

theorem keys_written (h : List.Forall₂ Entry.Under names entries) :
    ((written entries).given.map (·.1)).Sublist names := by
  induction h with
  | nil => exact List.Sublist.slnil
  | @cons name e names entries he _ ih =>
    cases e with
    | none => exact ih.cons name
    | some field =>
      obtain rfl : field.1 = name := he _ rfl
      exact ih.cons_cons field.1

theorem holds_written (h : List.Forall₂ Entry.Under names entries) (nodup : names.Nodup) :
    (written entries).Holds names entries := by
  induction h with
  | nil => trivial
  | @cons name e names entries he hrest ih =>
    obtain ⟨hname, hnames⟩ := List.nodup_cons.mp nodup
    cases e with
    | none =>
      refine ⟨Table.get?_eq_none fun x hx heq => hname ?_, ih hnames⟩
      exact heq ▸ (keys_written hrest).subset (List.mem_map_of_mem hx)
    | some field =>
      obtain ⟨key, j⟩ := field
      obtain rfl : key = name := he _ rfl
      refine ⟨by simp [find?, written, Table.get?, Entry.held], (ih hnames).congr fun other hother => ?_⟩
      have hne : key ≠ other := fun heq => hname (heq ▸ hother)
      simp [find?, written, Table.get?, hne]

theorem of?_record (h : List.Forall₂ Entry.Under names entries) (nodup : names.Nodup) :
    of? names (record entries) = some (written entries) := by
  have hknown : (written entries).given.filter (fun field => names.contains field.1) =
      (written entries).given := by
    refine List.filter_eq_self.mpr fun x hx => ?_
    simpa using (keys_written h).subset (List.mem_map_of_mem hx)
  show (if (_ : List String).Nodup then some _ else none) = _
  rw [show (entries.filterMap id).filter (fun field => names.contains field.1) = _ from hknown,
    if_pos (nodup.sublist (keys_written h))]
  rfl

end Fields

/-- A record that is read field by field. Rewriting is meant to go from the first field inwards (`↓`);
otherwise the rest of the record is visited anew for each of its fields. -/
theorem fields_eq_some {α β : Type} {x : Option α} {f : α → Option β} {b : β} :
    (x >>= f) = some b ↔ ∃ a, x = some a ∧ f a = some b := Option.bind_eq_some_iff

/-- A record fits if its reader finds again whatever it has once found in the fields. -/
theorem record_fits {names : List String} {build : Fields → Option α} {entries : α → List Entry}
    (nodup : names.Nodup) (under : ∀ a, List.Forall₂ Entry.Under names (entries a))
    (reread : ∀ f g a, build f = some a → g.named = true → g.Holds names (entries a) →
      build g = some a) :
    Fits (fun j => Fields.of? names j >>= build) fun a => record (entries a) := by
  refine ⟨fun {j a} h => ?_, fun _ => nofun⟩
  obtain ⟨f, -, hf⟩ := Option.bind_eq_some_iff.mp h
  refine Option.bind_eq_some_iff.mpr ⟨_, Fields.of?_record (under a) nodup, ?_⟩
  exact reread f _ a hf rfl (Fields.holds_written (under a) nodup)

namespace Fits

variable {f g : Fields} {name : String}

theorem required (h : Fits item write) {a : α} (ha : f.required name item = some a)
    (hg : g.find? name = (Entry.always name (write a)).held) : g.required name item = some a := by
  obtain ⟨j, -, hj⟩ := Option.bind_eq_some_iff.mp ha
  exact Option.bind_eq_some_iff.mpr ⟨_, hg, h.reread hj⟩

theorem defaulted (h : Fits item write) {a missing : α} (hm : item (write missing) = some missing)
    (ha : f.defaulted name missing item = some a)
    (hg : g.find? name = (Entry.always name (write a)).held) :
    g.defaulted name missing item = some a := by
  have hitem : item (write a) = some a := by
    unfold Fields.defaulted at ha
    split at ha
    · exact h.reread ha
    · cases ha
      exact hm
  unfold Fields.defaulted
  rw [hg]
  exact hitem

theorem of_optional (h : Fits item write) {o : Option α} (ho : f.optional name item = some o) :
    ∀ a ∈ o, item (write a) = some a ∧ write a ≠ .null := by
  unfold Fields.optional Fields.defaulted at ho
  split at ho
  · exact h.nullable_reread ho
  · cases ho
    simp

theorem optional (h : Fits item write) {o : Option α} (ho : f.optional name item = some o)
    (hg : g.find? name = (Entry.ifSome name write o).held) : g.optional name item = some o := by
  have hwritten := h.of_optional ho
  unfold Fields.optional Fields.defaulted
  rw [hg]
  cases o with
  | none => rfl
  | some a => exact asNullable?_ofOption hwritten

/-- The same for a field that is written as null where it says nothing. -/
theorem optional_null (h : Fits item write) {o : Option α} (ho : f.optional name item = some o)
    (hg : g.find? name = (Entry.always name (ofOption write o)).held) :
    g.optional name item = some o := by
  unfold Fields.optional Fields.defaulted
  rw [hg]
  exact asNullable?_ofOption (h.of_optional ho)

theorem nullable (h : Fits item write) {o : Option α} (ho : f.nullable name item = some o)
    (hn : g.named = true) (hg : g.find? name = (Entry.always name (ofOption write o)).held) :
    g.nullable name item = some o := by
  have hwritten : ∀ a ∈ o, item (write a) = some a ∧ write a ≠ .null := by
    unfold Fields.nullable at ho
    split at ho
    · exact h.of_optional ho
    · obtain ⟨j, -, hj⟩ := Option.bind_eq_some_iff.mp ho
      exact h.nullable_reread hj
  unfold Fields.nullable
  rw [if_pos hn]
  unfold Fields.optional Fields.defaulted
  rw [hg]
  exact asNullable?_ofOption hwritten

theorem listed (h : Fits item write) {as : List α} (ha : f.listed name item = some as)
    (hg : g.find? name = (Entry.ifAny name write as).held) : g.listed name item = some as := by
  cases as with
  | nil =>
    unfold Fields.listed Fields.defaulted
    rw [hg]
    rfl
  | cons a rest => exact (asList?_fits h).defaulted rfl ha hg

theorem listed_always (h : Fits item write) {as : List α} (ha : f.listed name item = some as)
    (hg : g.find? name = (Entry.always name (ofList write as)).held) :
    g.listed name item = some as := (asList?_fits h).defaulted rfl ha hg

end Fits

end Json

end MarsRules
