/-! The first member of a list that passes a test: changing it, and finding it by a key. -/

namespace MarsRules

def changeFirst {α : Type} (p : α → Bool) (f : α → α) : List α → List α
  | [] => []
  | a :: rest => if p a then f a :: rest else a :: changeFirst p f rest

variable {α : Type} {p : α → Bool} {f : α → α}

/-- What is found afterwards is what was found before, changed. -/
theorem find?_changeFirst (hf : ∀ a, p a = true → p (f a) = true) (xs : List α) :
    (changeFirst p f xs).find? p = (xs.find? p).map f := by
  induction xs with
  | nil => rfl
  | cons a rest ih =>
    cases hp : p a
    · simp [changeFirst, hp, ih]
    · simp [changeFirst, hp, hf a hp]

/-- Where no two have one key, the member that is found under a key is the one that has it. -/
theorem find?_key_eq_some {κ : Type} [BEq κ] [LawfulBEq κ] {key : α → κ} {xs : List α} {k : κ} {a : α}
    (h : (xs.map key).Nodup) : xs.find? (key · == k) = some a ↔ a ∈ xs ∧ key a = k := by
  induction xs with
  | nil => simp
  | cons b rest ih =>
    obtain ⟨hb, hrest⟩ := List.nodup_cons.mp h
    rw [List.find?_cons, List.mem_cons]
    by_cases hk : key b = k
    · have hother : ∀ c ∈ rest, key c ≠ k := fun c hc hkey =>
        hb (List.mem_map.mpr ⟨c, hc, hkey.trans hk.symm⟩)
      have hfound : (key b == k) = true := by simpa using hk
      rw [hfound]
      constructor
      · rintro ⟨⟩
        exact ⟨.inl rfl, hk⟩
      · rintro ⟨rfl | ha, hkey⟩
        · rfl
        · exact absurd hkey (hother a ha)
    · have hfound : (key b == k) = false := by simpa using hk
      rw [hfound]
      refine (ih hrest).trans (and_congr_left fun hkey => ?_)
      have hne : a ≠ b := fun hab => hk (hab ▸ hkey)
      simp [hne]

end MarsRules
