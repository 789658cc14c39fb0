/-! Steps on a state that may stop early. What was done before the stop stays done. -/

namespace MarsRules

def Steps (ε σ α : Type) : Type := σ → Except ε α × σ

namespace Steps

variable {ε σ α β : Type}

def done (a : α) : Steps ε σ α := fun s => (.ok a, s)

def andThen (x : Steps ε σ α) (f : α → Steps ε σ β) : Steps ε σ β := fun s =>
  match x s with
  | (.ok a, s) => f a s
  | (.error e, s) => (.error e, s)

instance : Monad (Steps ε σ) where
  pure := done
  bind := andThen

def stop (e : ε) : Steps ε σ α := fun s => (.error e, s)

/-- The state. -/
def read : Steps ε σ σ := fun s => (.ok s, s)

def change (f : σ → σ) : Steps ε σ Unit := fun s => (.ok (), f s)

def ofExcept : Except ε α → Steps ε σ α
  | .ok a => done a
  | .error e => stop e

/-- Steps that are taken only under a condition. -/
def when (c : Bool) (x : Steps ε σ Unit) : Steps ε σ Unit := if c then x else done ()

@[simp] theorem pure_apply (a : α) (s : σ) : (pure a : Steps ε σ α) s = (.ok a, s) := rfl

theorem bind_apply (x : Steps ε σ α) (f : α → Steps ε σ β) (s : σ) :
    (x >>= f) s = match x s with
      | (.ok a, s) => f a s
      | (.error e, s) => (.error e, s) := rfl

theorem bind_apply_ok {x : Steps ε σ α} {f : α → Steps ε σ β} {s t : σ} {a : α}
    (h : x s = (.ok a, t)) : (x >>= f) s = f a t := by rw [bind_apply, h]

theorem bind_apply_error {x : Steps ε σ α} {f : α → Steps ε σ β} {s t : σ} {e : ε}
    (h : x s = (.error e, t)) : (x >>= f) s = (.error e, t) := by rw [bind_apply, h]

@[simp] theorem stop_apply (e : ε) (s : σ) : (stop e : Steps ε σ α) s = (.error e, s) := rfl
@[simp] theorem read_apply (s : σ) : (read : Steps ε σ σ) s = (.ok s, s) := rfl
@[simp] theorem change_apply (f : σ → σ) (s : σ) :
    (change f : Steps ε σ Unit) s = (.ok (), f s) := rfl

@[simp] theorem when_true (x : Steps ε σ Unit) : when true x = x := rfl
@[simp] theorem when_false (x : Steps ε σ Unit) : when false x = pure () := rfl

instance : LawfulMonad (Steps ε σ) := LawfulMonad.mk' _
  (fun x => by
    funext s
    show (x >>= fun a => pure a) s = x s
    rw [bind_apply]
    rcases x s with ⟨_ | _, _⟩ <;> rfl)
  (fun _ _ => rfl)
  (fun x f g => by
    funext s
    simp only [bind_apply]
    rcases x s with ⟨_ | _, _⟩ <;> rfl)

end Steps

end MarsRules
