import MarsRules.Steps

/-! Reading a run of steps backwards (`bind_eq_ok`, `bind_eq_error`), and relations between the state
before and the state after that chain along a run (`Keeps`). -/

namespace MarsRules.Steps

variable {ε σ α β : Type} {x : Steps ε σ α} {f : α → Steps ε σ β}

theorem bind_eq_ok {s u : σ} {b : β} :
    (x >>= f) s = (.ok b, u) ↔ ∃ a t, x s = (.ok a, t) ∧ f a t = (.ok b, u) := by
  rw [bind_apply]
  rcases x s with ⟨_ | a, t⟩
  · simp
  · exact ⟨fun h => ⟨a, t, rfl, h⟩, by rintro ⟨_, _, hx, h⟩; cases hx; exact h⟩

theorem bind_eq_error {s u : σ} {e : ε} :
    (x >>= f) s = (.error e, u) ↔
      x s = (.error e, u) ∨ ∃ a t, x s = (.ok a, t) ∧ f a t = (.error e, u) := by
  rw [bind_apply]
  rcases x s with ⟨_ | a, t⟩
  · simp
  · constructor
    · exact fun h => .inr ⟨a, t, rfl, h⟩
    · rintro (hx | ⟨_, _, hx, h⟩)
      · cases hx
      · cases hx; exact h

/-- Either the first part stops, or the second goes on from where it leads. -/
theorem bind_cases {s u : σ} {r : Except ε β} (h : (x >>= f) s = (r, u)) :
    (∃ e, x s = (.error e, u) ∧ r = .error e) ∨ ∃ a t, x s = (.ok a, t) ∧ f a t = (r, u) := by
  rw [bind_apply] at h
  rcases hx : x s with ⟨e | a, t⟩ <;> rw [hx] at h
  · cases h
    exact .inl ⟨e, rfl, rfl⟩
  · exact .inr ⟨a, t, rfl, h⟩

theorem pure_eq_ok {s t : σ} {a b : α} :
    (pure a : Steps ε σ α) s = (.ok b, t) ↔ a = b ∧ s = t := by simp

theorem when_eq_ok {c : Bool} {y : Steps ε σ Unit} {s t : σ} :
    when c y s = (.ok (), t) ↔ c = true ∧ y s = (.ok (), t) ∨ c = false ∧ s = t := by
  cases c <;> simp

theorem ofExcept_eq_ok {y : Except ε α} {s t : σ} {a : α} :
    ofExcept y s = (.ok a, t) ↔ y = .ok a ∧ s = t := by
  cases y <;> simp [ofExcept, stop, done]

theorem ofExcept_snd (y : Except ε α) (s : σ) : (ofExcept y s).2 = s := by cases y <;> rfl

/-- Whatever the outcome, `R` relates the state before to the state after. -/
def Keeps (R : σ → σ → Prop) (x : Steps ε σ α) : Prop := ∀ s, R s (x s).2

section Keeps

variable {R : σ → σ → Prop}

theorem Keeps.pure [Std.Refl R] (a : α) : Keeps R (Pure.pure a : Steps ε σ α) :=
  fun s => Std.Refl.refl s

theorem Keeps.stop [Std.Refl R] (e : ε) : Keeps R (Steps.stop e : Steps ε σ α) :=
  fun s => Std.Refl.refl s

theorem Keeps.read [Std.Refl R] : Keeps R (Steps.read : Steps ε σ σ) := fun s => Std.Refl.refl s

theorem Keeps.ofExcept [Std.Refl R] (y : Except ε α) : Keeps R (Steps.ofExcept y) := by
  intro s
  rw [ofExcept_snd]
  exact Std.Refl.refl s

theorem Keeps.apply (h : Keeps R x) {s t : σ} {r : Except ε α} (hx : x s = (r, t)) : R s t := by
  have := h s
  rwa [hx] at this

/-- The second part need only keep `R` after what the first gives here. -/
theorem related_bind [Trans R R R] {s : σ} (hx : R s (x s).2)
    (hf : ∀ a t, x s = (.ok a, t) → R t (f a t).2) : R s ((x >>= f) s).2 := by
  rw [bind_apply]
  rcases hs : x s with ⟨_ | a, t⟩
  · rwa [hs] at hx
  · rw [hs] at hx
    exact Trans.trans hx (hf a t hs)

theorem Keeps.bind_of [Trans R R R] (hx : Keeps R x)
    (hf : ∀ s a t, x s = (.ok a, t) → R t (f a t).2) : Keeps R (x >>= f) :=
  fun s => related_bind (hx s) (hf s)

theorem Keeps.bind [Trans R R R] (hx : Keeps R x) (hf : ∀ a, Keeps R (f a)) :
    Keeps R (x >>= f) := hx.bind_of fun _ a t _ => hf a t

theorem Keeps.when [Std.Refl R] {y : Steps ε σ Unit} (hy : Keeps R y) (c : Bool) :
    Keeps R (Steps.when c y) := by
  cases c
  · exact Keeps.pure ()
  · exact hy

/-- Where `P` holds before, `R` relates the state before to the state after. -/
def KeepsFrom (P : σ → Prop) (R : σ → σ → Prop) (x : Steps ε σ α) : Prop :=
  ∀ s, P s → R s (x s).2

theorem Keeps.from (hx : Keeps R x) (P : σ → Prop) : KeepsFrom P R x := fun s _ => hx s

theorem KeepsFrom.bind [Trans R R R] {P : σ → Prop} (hP : ∀ s t, R s t → P s → P t)
    (hx : KeepsFrom P R x) (hf : ∀ a, KeepsFrom P R (f a)) : KeepsFrom P R (x >>= f) := by
  refine fun s hs => related_bind (hx s hs) fun a t ht => hf a t (hP s t ?_ hs)
  have := hx s hs
  rwa [ht] at this

theorem KeepsFrom.when [Std.Refl R] {P : σ → Prop} {y : Steps ε σ Unit} (hy : KeepsFrom P R y)
    (c : Bool) : KeepsFrom P R (Steps.when c y) := by
  cases c
  · exact (Keeps.pure ()).from P
  · exact hy

theorem Keeps.forM_of [Std.Refl R] [Trans R R R] {g : α → Steps ε σ Unit} {as : List α}
    (hg : ∀ a ∈ as, Keeps R (g a)) : Keeps R (as.forM g) := by
  induction as with
  | nil => exact Keeps.pure _
  | cons a rest ih =>
    obtain ⟨ha, hrest⟩ := List.forall_mem_cons.mp hg
    exact ha.bind fun _ => ih hrest

theorem Keeps.forM [Std.Refl R] [Trans R R R] {g : α → Steps ε σ Unit} (hg : ∀ a, Keeps R (g a))
    (as : List α) : Keeps R (as.forM g) := forM_of fun a _ => hg a

end Keeps

/-- Wherever the steps stop, it is for a reason among `S`. -/
def StopsOnly (S : ε → Prop) (x : Steps ε σ α) : Prop := ∀ s e t, x s = (.error e, t) → S e

section StopsOnly

variable {S : ε → Prop}

theorem StopsOnly.mono {S' : ε → Prop} (h : StopsOnly S x) (hS : ∀ e, S e → S' e) : StopsOnly S' x :=
  fun s e t hx => hS e (h s e t hx)

theorem StopsOnly.pure (a : α) : StopsOnly S (Pure.pure a : Steps ε σ α) := by
  intro s e t h
  simp at h

theorem StopsOnly.stop {e : ε} (h : S e) : StopsOnly S (Steps.stop e : Steps ε σ α) := by
  intro s e' t hs
  cases hs
  exact h

theorem StopsOnly.change (g : σ → σ) : StopsOnly S (Steps.change g : Steps ε σ Unit) := by
  intro s e t h
  simp at h

theorem StopsOnly.bind (hx : StopsOnly S x) (hf : ∀ a, StopsOnly S (f a)) :
    StopsOnly S (x >>= f) := by
  intro s e t h
  rcases bind_eq_error.mp h with hx' | ⟨a, u, -, ht⟩
  · exact hx s e t hx'
  · exact hf a u e t ht

theorem StopsOnly.forM {g : α → Steps ε σ Unit} (hg : ∀ a, StopsOnly S (g a)) (as : List α) :
    StopsOnly S (as.forM g) := by
  induction as with
  | nil => exact StopsOnly.pure _
  | cons a rest ih => exact (hg a).bind fun _ => ih

end StopsOnly

/-- From this state the steps end well where `P` holds, or stop for a reason among `S`. -/
structure SoundAt (P : σ → Prop) (S : ε → Prop) (x : Steps ε σ α) (s : σ) : Prop where
  ok : ∀ a t, x s = (.ok a, t) → P t
  stop : ∀ e t, x s = (.error e, t) → S e

def Sound (P : σ → Prop) (S : ε → Prop) (x : Steps ε σ α) : Prop := ∀ s, P s → SoundAt P S x s

section Sound

variable {P : σ → Prop} {S : ε → Prop}

theorem SoundAt.pure {a : α} {s : σ} (h : P s) : SoundAt P S (Pure.pure a : Steps ε σ α) s where
  ok b t ht := (pure_eq_ok.mp ht).2 ▸ h
  stop e t ht := by simp at ht

theorem SoundAt.change {g : σ → σ} {s : σ} (h : P (g s)) :
    SoundAt P S (Steps.change g : Steps ε σ Unit) s where
  ok b t ht := by cases ht; exact h
  stop e t ht := by simp at ht

/-- The second part has to be sound only after what the first gives here. -/
theorem SoundAt.bind {s : σ} (hx : SoundAt P S x s)
    (hf : ∀ a t, x s = (.ok a, t) → P t → SoundAt P S (f a) t) : SoundAt P S (x >>= f) s where
  ok b u h := by
    obtain ⟨a, t, ht, hu⟩ := bind_eq_ok.mp h
    exact (hf a t ht (hx.ok a t ht)).ok b u hu
  stop e u h := by
    rcases bind_eq_error.mp h with ht | ⟨a, t, ht, hu⟩
    · exact hx.stop e u ht
    · exact (hf a t ht (hx.ok a t ht)).stop e u hu

theorem Sound.mono {S' : ε → Prop} (hx : Sound P S x) (h : ∀ e, S e → S' e) : Sound P S' x :=
  fun s hs => ⟨(hx s hs).ok, fun e t ht => h e ((hx s hs).stop e t ht)⟩

theorem Sound.pure (a : α) : Sound P S (Pure.pure a : Steps ε σ α) := fun _ h => .pure h

theorem Sound.read : Sound P S (Steps.read : Steps ε σ σ) := fun _ h =>
  ⟨fun _ _ ht => by cases ht; exact h, fun _ _ ht => by cases ht⟩

theorem Sound.bind (hx : Sound P S x) (hf : ∀ a, Sound P S (f a)) : Sound P S (x >>= f) :=
  fun s hs => (hx s hs).bind fun a t _ ht => hf a t ht

theorem Sound.when {y : Steps ε σ Unit} (hy : Sound P S y) (c : Bool) :
    Sound P S (Steps.when c y) := by
  cases c
  · exact Sound.pure ()
  · exact hy

end Sound

end MarsRules.Steps
