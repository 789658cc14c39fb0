/-! Rows under text keys, one row a key, in the order the keys were first used. -/

namespace MarsRules

abbrev Table (α : Type) := List (String × α)

namespace Table

variable {α : Type}

def get? (t : Table α) (key : String) : Option α :=
  match t with
  | [] => none
  | (k, a) :: rest => if k = key then some a else get? rest key

/-- Replaces the row under `key` in its place, or adds one at the end. -/
def put (t : Table α) (key : String) (a : α) : Table α :=
  match t with
  | [] => [(key, a)]
  | (k, b) :: rest => if k = key then (key, a) :: rest else (k, b) :: put rest key a

def erase (t : Table α) (key : String) : Table α := t.filter (·.1 ≠ key)

def keys (t : Table α) : List String := t.map (·.1)

@[simp] theorem get?_put_self (t : Table α) (key : String) (a : α) :
    (t.put key a).get? key = some a := by
  induction t with
  | nil => simp [put, get?]
  | cons row rest ih =>
    obtain ⟨k, b⟩ := row
    by_cases h : k = key <;> simp [put, get?, h, ih]

@[simp] theorem get?_put_of_ne (t : Table α) {key other : String} (h : other ≠ key) (a : α) :
    (t.put key a).get? other = t.get? other := by
  induction t with
  | nil => simp [put, get?, h.symm]
  | cons row rest ih =>
    obtain ⟨k, b⟩ := row
    by_cases hk : k = key
    · subst hk; simp [put, get?, h.symm]
    · simp only [put, hk, if_false, get?, ih]

theorem get?_erase_self (t : Table α) (key : String) : (t.erase key).get? key = none := by
  induction t with
  | nil => rfl
  | cons row rest ih =>
    obtain ⟨k, b⟩ := row
    by_cases h : k = key
    · simpa [erase, h] using ih
    · simpa [erase, get?, h] using ih

theorem get?_erase_of_ne (t : Table α) {key other : String} (h : other ≠ key) :
    (t.erase key).get? other = t.get? other := by
  induction t with
  | nil => rfl
  | cons row rest ih =>
    obtain ⟨k, b⟩ := row
    by_cases hk : k = key
    · subst hk; simpa [erase, get?, h.symm] using ih
    · have : erase ((k, b) :: rest) key = (k, b) :: erase rest key := by simp [erase, hk]
      rw [this]; simp only [get?, ih]

end Table

end MarsRules
