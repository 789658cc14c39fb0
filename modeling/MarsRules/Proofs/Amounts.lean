import MarsRules.Payment
import MarsRules.Proofs.Moves
import MarsRules.Proofs.Plans

/-! Sums that are computed along the way, as far as 32 bits keep them: what a payment takes, what the
inputs of a card cost, the tokens a card gets, and the steps that the parameters gain. -/

namespace MarsRules

/-- A record whose pool and productions are numbers of 32 bits. -/
structure Player.Fits (x : Player) : Prop where
  resources : ∀ c, FitsInt32 (x.resources.get c)
  production : ∀ c, FitsInt32 (x.production.get c)

namespace Payment

/-- What the payment takes of one resource. -/
def taken (p : Payment) (r : BaseResource) : Int :=
  ({ credits := p.credits, steel := p.steel, titanium := p.titanium } : ResourceSet).get r +
    total ((p.substitutes.filter (·.1 == .resource r)).map (·.2))

theorem get_debit {p : Payment} {d : ResourceSet} (h : p.debit = .ok d) (r : BaseResource) :
    d.get r = p.taken r := by
  have hfold : ∀ (l : List (ResourceKind × Int)) (t : ResourceSet),
      l.foldlM (fun total step => do
        let r ← resource step.1
        return total.set r (← fit (total.get r + step.2))) t = .ok d →
      d.get r = t.get r + total ((l.filter (·.1 == .resource r)).map (·.2)) := by
    intro l
    induction l with
    | nil => intro t h; cases h; exact (Int.add_zero _).symm
    | cons step rest ih =>
      obtain ⟨kind, n⟩ := step
      intro t h
      obtain ⟨u, hu, h⟩ := except_bind_eq_ok.mp h
      obtain ⟨q, hq, hu⟩ := except_bind_eq_ok.mp hu
      obtain ⟨m, hm, hu⟩ := except_bind_eq_ok.mp hu
      cases hu
      obtain rfl : kind = .resource q := by
        cases kind <;> cases hq
        rfl
      obtain rfl : t.get q + n = m := by
        unfold fit at hm
        split at hm
        · next hf => cases hm; exact (fitInt32?_eq_some.mp hf).2
        · cases hm
      rw [ih _ h, ResourceSet.get_set]
      by_cases hqr : q = r
      · subst hqr; simp [total]; omega
      · simp [hqr]
  exact hfold _ _ h

theorem get_takeFrom {p : Payment} {pool paid : ResourceSet} (h : p.takeFrom pool = .ok paid)
    (r : BaseResource) : AddsUp (pool.get r) (-p.taken r) (paid.get r) := by
  obtain ⟨d, hd, h⟩ := except_bind_eq_ok.mp h
  simp only at h
  split at h
  · cases h
  · cases h
    rw [ResourceSet.get_add, ResourceSet.get_neg, get_debit hd]
    exact .add_wrap _ _

end Payment

namespace Card

theorem get_foldl {step : ResourceSet → LineItem → ResourceSet} {gain : LineItem → Int}
    {r : BaseResource}
    (hstep : ∀ pool item, AddsUp (pool.get r) (gain item) ((step pool item).get r))
    (items : List LineItem) (pool : ResourceSet) :
    AddsUp (pool.get r) (total (items.map gain)) ((items.foldl step pool).get r) := by
  induction items generalizing pool with
  | nil => exact .refl _
  | cons item rest ih => exact (hstep pool item).trans (ih _)

theorem get_immediateInputs (c : Card) (choice : Option Nat) (r : BaseResource) :
    (c.immediateInputs choice).get r = wrapInt32 (-amountOf (.resource r) (c.spends choice)) := by
  have hgain : ∀ items : List LineItem, total (items.map fun item =>
      if item.kind = .resource r then -item.amount else 0) = -amountOf (.resource r) items := by
    intro items
    induction items with
    | nil => rfl
    | cons item rest ih =>
      simp only [amountOf] at ih ⊢
      by_cases hk : item.kind = .resource r <;> simp [hk, total, ih]
      omega
  rw [← hgain]
  refine AddsUp.of_zero (ResourceSet.get_zero r ▸ get_foldl (fun pool item => ?_) _ .zero)
  cases hk : item.kind
  case resource q =>
    by_cases hq : q = r <;> simp [hq, ResourceSet.get_addOne, LineItem.charge]
  all_goals simp

end Card

namespace Plan

@[simp] theorem addTokens_nil (storage : Table Int) : addTokens storage [] = storage := rfl

@[simp] theorem addTokens_cons (storage : Table Int) (card : CardId) (n : Int)
    (rest : List (CardId × Int)) : addTokens storage ((card, n) :: rest) =
      addTokens (storage.put card (addInt32 ((storage.get? card).getD 0) n)) rest := rfl

theorem get?_addTokens_of_not_mem {tokens : List (CardId × Int)} {c : CardId}
    (h : c ∉ tokens.map (·.1)) (storage : Table Int) :
    (addTokens storage tokens).get? c = storage.get? c := by
  induction tokens generalizing storage with
  | nil => rfl
  | cons token rest ih =>
    obtain ⟨hd, hrest⟩ := not_or.mp (mt List.mem_cons.mpr h)
    exact (ih hrest _).trans (Table.get?_put_of_ne _ hd _)

theorem getD_addTokens (storage : Table Int) (tokens : List (CardId × Int)) (c : CardId) :
    AddsUp ((storage.get? c).getD 0) (total ((tokens.filter (·.1 == c)).map (·.2)))
      (((addTokens storage tokens).get? c).getD 0) := by
  induction tokens generalizing storage with
  | nil => exact .refl _
  | cons token rest ih =>
    obtain ⟨d, n⟩ := token
    have hrest := ih (storage.put d (addInt32 ((storage.get? d).getD 0) n))
    by_cases hd : d = c
    · subst hd
      rw [Table.get?_put_self, Option.getD_some] at hrest
      simpa [total] using (AddsUp.add _ n).trans hrest
    · rw [Table.get?_put_of_ne _ (Ne.symm hd)] at hrest
      simpa [hd] using hrest

theorem isSome_addTokens {tokens : List (CardId × Int)} {c : CardId} (storage : Table Int)
    (h : c ∈ tokens.map (·.1) ∨ (storage.get? c).isSome) :
    ((addTokens storage tokens).get? c).isSome := by
  induction tokens generalizing storage with
  | nil => simpa using h
  | cons token rest ih =>
    obtain ⟨d, n⟩ := token
    rw [addTokens_cons]
    refine ih (storage.put d (addInt32 ((storage.get? d).getD 0) n)) ?_
    by_cases hd : d = c
    · subst hd
      exact .inr (by rw [Table.get?_put_self]; rfl)
    · rw [Table.get?_put_of_ne _ (Ne.symm hd)]
      simpa [Ne.symm hd] using h

/-- A card ends with what it had and all that was added; one that gets nothing stays as it was. -/
theorem get?_addTokens (storage : Table Int) (tokens : List (CardId × Int)) (c : CardId) :
    ∃ n, AddsUp ((storage.get? c).getD 0) (total ((tokens.filter (·.1 == c)).map (·.2))) n ∧
      (addTokens storage tokens).get? c =
        if c ∈ tokens.map (·.1) then some n else storage.get? c := by
  refine ⟨_, getD_addTokens storage tokens c, ?_⟩
  split
  · next h =>
    obtain ⟨n, hn⟩ := Option.isSome_iff_exists.mp (isSome_addTokens storage (.inl h))
    rw [hn, Option.getD_some]
  · next h => exact get?_addTokens_of_not_mem h storage

end Plan

namespace ParameterChange

/-- The whole steps that the parameters gained, those that went down aside. -/
def allSteps (rules : Rules) (before after : Parameters) : Int :=
  total (GlobalParameter.all.map fun q => stepsGained ⟨q, before.get q, after.get q⟩ rules)

/-- The steps as the rating counts them: a sum that wraps around to a loss counts for nothing. -/
def gained (rules : Rules) (before after : Parameters) : Int :=
  max 0 (wrapInt32 (allSteps rules before after))

@[simp] theorem stepsGained_self (q : GlobalParameter) (n : Int) (rules : Rules) :
    stepsGained ⟨q, n, n⟩ rules = 0 := by
  simp [stepsGained]

theorem allSteps_eq {rules : Rules} {changes : List ParameterChange} {before : Parameters}
    (hn : (changes.map (·.parameter)).Nodup)
    (hb : ∀ c ∈ changes, c.before = before.get c.parameter) :
    total (changes.map (·.stepsGained rules)) = allSteps rules before (before.after changes) := by
  induction changes generalizing before with
  | nil => simp [allSteps, total, GlobalParameter.all]
  | cons c rest ih =>
    obtain ⟨hc, hrest⟩ := List.nodup_cons.mp hn
    obtain ⟨hcb, hb⟩ := List.forall_mem_cons.mp hb
    have hne : ∀ d ∈ rest, d.parameter ≠ c.parameter := fun d hd h =>
      hc (List.mem_map.mpr ⟨d, hd, h⟩)
    have hlast : ((before.set c.parameter c.after).after rest).get c.parameter = c.after := by
      rw [Parameters.get_after_of_forall_ne hne, Parameters.get_set, if_pos rfl]
    have hstep : c.stepsGained rules =
        stepsGained ⟨c.parameter, before.get c.parameter, c.after⟩ rules := by rw [← hcb]
    have hb : ∀ d ∈ rest, d.before = (before.set c.parameter c.after).get d.parameter := fun d hd => by
      rw [hb d hd, Parameters.get_set, if_neg (Ne.symm (hne d hd))]
    rw [List.map_cons, total, ih hrest hb, Parameters.after_cons, hstep]
    cases hq : c.parameter <;> rw [hq] at hlast <;>
      simp [allSteps, GlobalParameter.all, total, hlast, Parameters.get_set] <;> omega

theorem rating_eq {rules : Rules} {changes : List ParameterChange} {before : Parameters}
    (hn : (changes.map (·.parameter)).Nodup)
    (hb : ∀ c ∈ changes, c.before = before.get c.parameter) :
    rating rules changes =
      if rules.ratingPerStep then gained rules before (before.after changes) else 0 := by
  rw [rating, allSteps_eq hn hb, gained]

theorem rating_ofSteps (rules : Rules) (first : Parameters) {steps : List (GlobalParameter × Int)}
    (h : (steps.map (·.1)).Nodup) :
    rating rules (ofSteps rules first steps) = if rules.ratingPerStep then
      gained rules first (first.after (ofSteps rules first steps)) else 0 :=
  rating_eq (ofSteps_nodup h) fun _ hc => before_of_mem_ofSteps hc

end ParameterChange

end MarsRules
