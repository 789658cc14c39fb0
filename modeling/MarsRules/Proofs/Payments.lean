import MarsRules.Proofs.Amounts

/-! Which payments are accepted: the checks of a payment, taken together, hold exactly for the payments
that are in order, and what was accepted can be taken from the pool. -/

namespace MarsRules

/-- What one of a resource is worth to the player: the first of the effects to grant it says so. -/
def Player.rate? (player : Player) (r : BaseResource) : Option Int :=
  ((player.effects.flatMap (·.behavior.outputs)).find? fun item =>
    item.kind == .paymentSubstitute && item.resources.contains (.resource r)).map (·.amount)

def Player.kindRate? (player : Player) : ResourceKind → Option Int
  | .resource r => player.rate? r
  | _ => none

theorem Player.kindRate?_eq_some {player : Player} {kind : ResourceKind} {rate : Int} :
    player.kindRate? kind = some rate ↔ ∃ r, kind = .resource r ∧ player.rate? r = some rate := by
  cases kind <;> simp [kindRate?]

theorem find?_filterMap_resource {f : ResourceKind → Option Substitute} {n : Int}
    (hresource : ∀ q, f (.resource q) = some ⟨q, n⟩)
    (hother : ∀ k, (∀ q, k ≠ .resource q) → f k = none) (r : BaseResource)
    (kinds : List ResourceKind) :
    (kinds.filterMap f).find? (·.resource == r) =
      if kinds.contains (.resource r) then some ⟨r, n⟩ else none := by
  induction kinds with
  | nil => rfl
  | cons k rest ih =>
    cases k with
    | resource q =>
      rw [List.filterMap_cons_some (hresource q)]
      by_cases hq : q = r
      · simp [hq]
      · simp [hq, Ne.symm hq, ih]
    | _ => rw [List.filterMap_cons_none (hother _ (by simp)), ih]; simp

theorem Card.rate?_price (card : Card) (player : Player) (r : BaseResource) :
    (card.price player).rate? r = player.rate? r := by
  show (player.substitutes.find? (·.resource == r)).map _ = _
  unfold Player.substitutes Player.modifiers Player.rate?
  have hgrants : (player.effects.flatMap (·.behavior.modifiers)).filter (·.kind == .paymentSubstitute) =
      (player.effects.flatMap (·.behavior.outputs)).filter (·.kind == .paymentSubstitute) := by
    simp only [List.filter_flatMap, Behavior.modifiers, List.filter_filter]
    congr 1; funext e
    refine List.filter_congr fun item _ => ?_
    by_cases hk : item.kind = .paymentSubstitute <;> simp [hk, ResourceKind.isModifier]
  rw [hgrants]
  induction player.effects.flatMap (·.behavior.outputs) with
  | nil => rfl
  | cons item rest ih =>
    by_cases hk : item.kind = .paymentSubstitute
    · rw [List.filter_cons_of_pos (by simpa using hk), List.flatMap_cons, List.find?_append,
        find?_filterMap_resource (n := item.amount) (fun _ => rfl) (fun k hk => by cases k <;> simp at hk ⊢)]
      by_cases hr : item.resources.contains (.resource r) = true
      · rw [if_pos hr, Option.some_or, List.find?_cons_of_pos (by simpa [hk] using hr)]
        rfl
      · rw [if_neg hr, Option.none_or, ih, List.find?_cons_of_neg (by simpa [hk] using hr)]
    · rw [List.filter_cons_of_neg (by simpa using hk), ih, List.find?_cons_of_neg (by simp [hk])]

section Guards

variable {ε α β : Type} {c : Prop} [Decidable c] {e : ε} {f : α → Except ε β} {x : Except ε β} {b : β}

theorem ite_throw_eq_ok : (if c then throw e else x) = .ok b ↔ ¬c ∧ x = .ok b := by
  by_cases hc : c <;> simp [hc, throw, throwThe, MonadExceptOf.throw]

theorem ite_throw_bind_eq_ok : (if c then throw e >>= f else x) = .ok b ↔ ¬c ∧ x = .ok b :=
  ite_throw_eq_ok

end Guards

/-- Every sum along the way, from the first one on. -/
def SumsFit (m : Int) (ns : List Int) : Prop := ∀ ps, ps <+: ns → ps ≠ [] → FitsInt32 (m + total ps)

theorem sumsFit_nil (m : Int) : SumsFit m [] := fun _ hps hne => absurd (List.prefix_nil.mp hps) hne

theorem sumsFit_cons {m n : Int} {ns : List Int} :
    SumsFit m (n :: ns) ↔ FitsInt32 (m + n) ∧ SumsFit (m + n) ns := by
  constructor
  · intro h
    refine ⟨by simpa [total] using h [n] (by simp) (by simp), fun ps hps _ => ?_⟩
    simpa [total, Int.add_assoc] using h (n :: ps) (by simpa using hps) (by simp)
  · rintro ⟨hn, hns⟩ ps hps hne
    obtain rfl | ⟨qs, rfl, hqs⟩ := List.prefix_cons_iff.mp hps
    · exact absurd rfl hne
    · by_cases hq : qs = []
      · simpa [hq, total] using hn
      · simpa [total, Int.add_assoc] using hns qs hqs hq

instance instDecidableSumsFit : (m : Int) → (ns : List Int) → Decidable (SumsFit m ns)
  | m, [] => .isTrue (sumsFit_nil m)
  | m, n :: rest =>
    letI := instDecidableSumsFit (m + n) rest
    decidable_of_iff _ (sumsFit_cons (m := m)).symm

theorem sumsFit_iff {m : Int} {ns : List Int} (hm : FitsInt32 m) :
    SumsFit m ns ↔ ∀ ps, ps <+: ns → FitsInt32 (m + total ps) := by
  refine ⟨fun h ps hps => ?_, fun h ps hps _ => h ps hps⟩
  by_cases hne : ps = []
  · simpa [hne, total] using hm
  · exact h ps hps hne

namespace Payment

variable {p : Payment} {rules : Rules} {card : Card} {player : Player} {pool : ResourceSet}

theorem fit_eq_ok {n m : Int} : fit n = .ok m ↔ FitsInt32 n ∧ n = m := by
  unfold fit
  cases h : fitInt32? n with
  | some k => rw [← fitInt32?_eq_some, h, Option.some.injEq, Except.ok.injEq]
  | none => rw [← fitInt32?_eq_some, h]; simp

/-- What everything but the credits is worth, piece by piece. -/
def products (p : Payment) (rules : Rules) (player : Player) : List Int :=
  p.steel * rules.steelValue :: p.titanium * rules.titaniumValue ::
    p.substitutes.map fun s => s.2 * (player.kindRate? s.1).getD 0

/-- A payment that is in order for a card and a player with this pool. -/
structure Accepted (rules : Rules) (card : Card) (player : Player) (pool : ResourceSet) (p : Payment) :
    Prop where
  nonneg : 0 ≤ p.credits ∧ 0 ≤ p.steel ∧ 0 ≤ p.titanium ∧ ∀ s ∈ p.substitutes, 0 ≤ s.2
  steel : 0 < p.steel → card.hasTag .building = true
  titanium : 0 < p.titanium → card.hasTag .space = true
  granted : ∀ s ∈ p.substitutes, ∃ r rate, s.1 = .resource r ∧ player.rate? r = some rate
  /-- Metals and substitutes may draw on one counter: it has to hold what they take together. -/
  held : ∀ r, p.taken r ≤ pool.get r
  products_fit : ∀ n ∈ p.products rules player, FitsInt32 n
  sums_fit : ∀ ns, ns <+: p.products rules player → FitsInt32 (p.credits + total ns)
  covered : (card.price player).cost ≤ p.credits + total (p.products rules player)
  /-- Not a credit more than the rest leaves to pay. -/
  needed : p.credits = max 0 ((card.price player).cost - total (p.products rules player))

theorem hasNegative_eq_false : p.hasNegative = false ↔
    0 ≤ p.credits ∧ 0 ≤ p.steel ∧ 0 ≤ p.titanium ∧ ∀ s ∈ p.substitutes, 0 ≤ s.2 := by
  simp only [hasNegative, Bool.or_eq_false_iff, decide_eq_false_iff_not, Int.not_lt,
    List.any_eq_false, decide_eq_true_eq, and_assoc]

theorem checkHeld_eq_ok {debit pool : ResourceSet} :
    checkHeld debit pool = .ok () ↔ ∀ r, debit.get r ≤ pool.get r := by
  unfold checkHeld
  cases h : BaseResource.all.find? fun r => pool.get r < debit.get r with
  | some r =>
    have := List.find?_some h
    simp only [reduceCtorEq, false_iff, not_forall]
    exact ⟨r, by simpa using this⟩
  | none =>
    simp only [List.find?_eq_none, decide_eq_true_eq, Int.not_lt] at h
    simpa using fun r => h r (BaseResource.mem_all r)

/-- The value with one more substitute. -/
def addSubstitute (price : Price) (value : Int) (s : ResourceKind × Int) : Except Refusal Int := do
  let r ← resource s.1
  match price.rate? r with
  | some rate => fit (value + (← fit (s.2 * rate)))
  | none => throw (.invalidPayment s!"{r.word} is not accepted as payment")

theorem addSubstitute_eq_ok {m value : Int} {s : ResourceKind × Int} :
    addSubstitute (card.price player) m s = .ok value ↔
      ∃ rate, player.kindRate? s.1 = some rate ∧ FitsInt32 (s.2 * rate) ∧
        FitsInt32 (m + s.2 * rate) ∧ m + s.2 * rate = value := by
  obtain ⟨kind, n⟩ := s
  cases kind with
  | resource r =>
    show (match (card.price player).rate? r with
      | some rate => do fit (m + (← fit (n * rate)))
      | none => .error _) = .ok value ↔ ∃ rate, player.rate? r = some rate ∧ _
    rw [Card.rate?_price]
    cases player.rate? r with
    | none => simp
    | some rate => simp [except_bind_eq_ok, fit_eq_ok, and_assoc]
  | _ => simp [addSubstitute, resource, Player.kindRate?, bind, Except.bind]

/-- A fold over substitutes, as `Accepted` has it: all granted, and nothing along the way out of range. -/
theorem foldlM_addSubstitute_eq_ok {m value : Int} {l : List (ResourceKind × Int)} :
    l.foldlM (addSubstitute (card.price player)) m = .ok value ↔
      (∀ s ∈ l, ∃ r rate, s.1 = .resource r ∧ player.rate? r = some rate) ∧
      (∀ n ∈ l.map fun s => s.2 * (player.kindRate? s.1).getD 0, FitsInt32 n) ∧
      SumsFit m (l.map fun s => s.2 * (player.kindRate? s.1).getD 0) ∧
      m + total (l.map fun s => s.2 * (player.kindRate? s.1).getD 0) = value := by
  induction l generalizing m with
  | nil => simp [sumsFit_nil, total, pure, Except.pure]
  | cons s rest ih =>
    simp only [List.foldlM_cons, except_bind_eq_ok, addSubstitute_eq_ok, ih, List.map_cons,
      List.forall_mem_cons, sumsFit_cons, total]
    constructor
    · rintro ⟨_, ⟨rate, hrate, hn, hm, rfl⟩, hgranted, hfit, hsums, rfl⟩
      obtain ⟨r, hr⟩ := Player.kindRate?_eq_some.mp hrate
      simp only [hrate, Option.getD_some]
      exact ⟨⟨⟨r, rate, hr⟩, hgranted⟩, ⟨hn, hfit⟩, ⟨hm, hsums⟩, (Int.add_assoc ..).symm⟩
    · rintro ⟨⟨⟨r, rate, hr⟩, hgranted⟩, ⟨hn, hfit⟩, ⟨hm, hsums⟩, rfl⟩
      have hrate := Player.kindRate?_eq_some.mpr ⟨r, hr⟩
      simp only [hrate, Option.getD_some] at *
      exact ⟨_, ⟨rate, rfl, hn, hm, rfl⟩, hgranted, hfit, hsums, Int.add_assoc ..⟩

theorem worth_eq_ok {value : Int} : p.worth rules (card.price player) = .ok value ↔
    (∀ s ∈ p.substitutes, ∃ r rate, s.1 = .resource r ∧ player.rate? r = some rate) ∧
    (∀ n ∈ p.products rules player, FitsInt32 n) ∧ SumsFit p.credits (p.products rules player) ∧
    p.credits + total (p.products rules player) = value := by
  have hworth : p.worth rules (card.price player) = (do
      let steel ← fit (p.steel * rules.steelValue)
      let titanium ← fit (p.titanium * rules.titaniumValue)
      let metals ← fit ((← fit (p.credits + steel)) + titanium)
      p.substitutes.foldlM (addSubstitute (card.price player)) metals) := rfl
  simp only [hworth, except_bind_eq_ok, fit_eq_ok, foldlM_addSubstitute_eq_ok, products, sumsFit_cons,
    List.forall_mem_cons, total]
  constructor
  · rintro ⟨_, ⟨hs, rfl⟩, _, ⟨ht, rfl⟩, _, ⟨hcs, rfl⟩, _, ⟨hcst, rfl⟩, hgranted, hfit, hsums, rfl⟩
    exact ⟨hgranted, ⟨hs, ht, hfit⟩, ⟨hcs, hcst, hsums⟩, by omega⟩
  · rintro ⟨hgranted, ⟨hs, ht, hfit⟩, ⟨hcs, hcst, hsums⟩, rfl⟩
    exact ⟨_, ⟨hs, rfl⟩, _, ⟨ht, rfl⟩, _, ⟨hcs, rfl⟩, _, ⟨hcst, rfl⟩, hgranted, hfit, hsums, by omega⟩

/-- What some steps take of one resource. -/
def takenOf (l : List (ResourceKind × Int)) (r : BaseResource) : Int :=
  total ((l.filter (·.1 == .resource r)).map (·.2))

theorem takenOf_nonneg {l : List (ResourceKind × Int)} (h : ∀ s ∈ l, 0 ≤ s.2) (r : BaseResource) :
    0 ≤ takenOf l r :=
  total_nonneg fun n hn => by
    obtain ⟨s, hs, rfl⟩ := List.mem_map.mp hn
    exact h s ((List.mem_filter.mp hs).1)

theorem takenOf_cons (q r : BaseResource) (n : Int) (rest : List (ResourceKind × Int)) :
    takenOf ((.resource q, n) :: rest) r = (if q = r then n else 0) + takenOf rest r := by
  by_cases hq : q = r <;> simp [takenOf, hq, total]

/-- The debit with one more substitute. -/
def addDebit (debit : ResourceSet) (s : ResourceKind × Int) : Except Refusal ResourceSet := do
  let r ← resource s.1
  return debit.set r (← fit (debit.get r + s.2))

theorem addDebit_of_fits {t : ResourceSet} {r : BaseResource} {n : Int} (h : FitsInt32 (t.get r + n)) :
    addDebit t (.resource r, n) = .ok (t.set r (t.get r + n)) :=
  except_bind_eq_ok.mpr ⟨r, rfl, except_bind_eq_ok.mpr ⟨_, fit_eq_ok.mpr ⟨h, rfl⟩, rfl⟩⟩

/-- Amounts that are not negative, so that no sum along the way is above what is taken in the end. -/
theorem exists_foldlM_addDebit {l : List (ResourceKind × Int)} {t : ResourceSet}
    (hn : ∀ s ∈ l, 0 ≤ s.2) (hkinds : ∀ s ∈ l, ∃ r, s.1 = .resource r) (ht : ∀ r, 0 ≤ t.get r)
    (hbound : ∀ r, t.get r + takenOf l r ≤ maxInt32) : ∃ debit, l.foldlM addDebit t = .ok debit := by
  induction l generalizing t with
  | nil => exact ⟨t, rfl⟩
  | cons s rest ih =>
    obtain ⟨kind, n⟩ := s
    obtain ⟨hstep, hrest⟩ := List.forall_mem_cons.mp hn
    obtain ⟨⟨q, rfl⟩, hothers⟩ := List.forall_mem_cons.mp hkinds
    simp only [takenOf_cons] at hbound hstep
    have hsum : FitsInt32 (t.get q + n) := by
      have := ht q
      have := hbound q
      have := takenOf_nonneg hrest q
      simp only [if_true, FitsInt32, minInt32, maxInt32] at *
      omega
    have hget (r : BaseResource) :
        (t.set q (t.get q + n)).get r = t.get r + if q = r then n else 0 := by
      by_cases hq : q = r <;> simp [ResourceSet.get_set, hq]
    have hnonneg (r : BaseResource) : 0 ≤ (t.set q (t.get q + n)).get r := by
      have := ht r
      rw [hget]
      split <;> omega
    obtain ⟨debit, hdebit⟩ := ih hrest hothers hnonneg fun r => by
      have := hbound r
      rw [hget]
      omega
    exact ⟨debit, List.foldlM_cons.trans (except_bind_eq_ok.mpr ⟨_, addDebit_of_fits hsum, hdebit⟩)⟩

theorem exists_debit (hn : 0 ≤ p.credits ∧ 0 ≤ p.steel ∧ 0 ≤ p.titanium ∧ ∀ s ∈ p.substitutes, 0 ≤ s.2)
    (hkinds : ∀ s ∈ p.substitutes, ∃ r, s.1 = .resource r)
    (htaken : ∀ r, p.taken r ≤ maxInt32) : ∃ debit, p.debit = .ok debit :=
  exists_foldlM_addDebit hn.2.2.2 hkinds
    (fun r => by cases r <;> simp [ResourceSet.get, hn.1, hn.2.1, hn.2.2.1]) htaken

theorem get_rest {debit : ResourceSet} {r : BaseResource} (hpool : FitsInt32 (pool.get r))
    (hn : 0 ≤ debit.get r) (hheld : debit.get r ≤ pool.get r) :
    (pool + -debit).get r = pool.get r - debit.get r := by
  simp only [FitsInt32, minInt32, maxInt32] at hpool
  have hneg : FitsInt32 (-debit.get r) := by simp only [FitsInt32, minInt32, maxInt32]; omega
  have hrest : FitsInt32 (pool.get r + -debit.get r) := by
    simp only [FitsInt32, minInt32, maxInt32]; omega
  rw [ResourceSet.get_add, ResourceSet.get_neg, wrapInt32_of_fits hneg, addInt32_exact hrest]
  rfl

theorem takeFrom_eq_ok {debit : ResourceSet} (hpool : ∀ r, FitsInt32 (pool.get r))
    (hd : p.debit = .ok debit) (hn : ∀ r, 0 ≤ debit.get r) (hheld : ∀ r, debit.get r ≤ pool.get r) :
    p.takeFrom pool = .ok (pool + -debit) := by
  have hnone : pool.shortfall? (-debit) = none := (ResourceSet.shortfall?_eq_none ..).mpr fun r => by
    have := hheld r
    rw [get_rest (hpool r) (hn r) this]
    omega
  rw [takeFrom, hd]
  simp [bind, Except.bind, hnone, pure, Except.pure]

theorem check_eq_ok {price : Price} : p.check rules price pool = .ok () ↔
    p.hasNegative = false ∧ (0 < p.steel → price.acceptsSteel = true) ∧
      (0 < p.titanium → price.acceptsTitanium = true) ∧
      (∃ debit, p.debit = .ok debit ∧ checkHeld debit pool = .ok ()) ∧
      ∃ value, p.worth rules price = .ok value ∧ price.cost ≤ value ∧
        p.credits ≤ max 0 (wrapInt32 (price.cost - wrapInt32 (value - p.credits))) := by
  unfold check
  simp only [ite_throw_bind_eq_ok, ite_throw_eq_ok, except_bind_eq_ok, Bool.not_eq_true, not_and,
    Bool.not_eq_true', Bool.not_eq_false, Int.not_lt]
  constructor
  · rintro ⟨hneg, hsteel, htitanium, debit, hdebit, ⟨⟩, hheld, value, hworth, hcost, hneeded, -⟩
    exact ⟨hneg, hsteel, htitanium, ⟨debit, hdebit, hheld⟩, value, hworth, hcost, hneeded⟩
  · rintro ⟨hneg, hsteel, htitanium, ⟨debit, hdebit, hheld⟩, value, hworth, hcost, hneeded⟩
    exact ⟨hneg, hsteel, htitanium, debit, hdebit, (), hheld, value, hworth, hcost, hneeded, rfl⟩

theorem taken_nonneg (hn : 0 ≤ p.credits ∧ 0 ≤ p.steel ∧ 0 ≤ p.titanium ∧ ∀ s ∈ p.substitutes, 0 ≤ s.2)
    (r : BaseResource) : 0 ≤ p.taken r := by
  have := takenOf_nonneg hn.2.2.2 r
  simp only [taken, takenOf] at *
  cases r <;> simp only [ResourceSet.get] <;> omega

theorem credits_le_taken (hn : ∀ s ∈ p.substitutes, 0 ≤ s.2) : p.credits ≤ p.taken .credits := by
  have := takenOf_nonneg hn .credits
  simp only [taken, takenOf, ResourceSet.get] at *
  omega

theorem differences_fit {cost value credits : Int} (hcredits : 0 ≤ credits ∧ credits ≤ maxInt32)
    (hvalue : value ≤ maxInt32) (hcost : 0 ≤ cost) (hcovered : cost ≤ value) :
    FitsInt32 (value - credits) ∧ FitsInt32 (cost - (value - credits)) := by
  simp only [FitsInt32, minInt32, maxInt32] at *
  omega

theorem wrapped_differences {cost value credits : Int}
    (h : FitsInt32 (value - credits) ∧ FitsInt32 (cost - (value - credits))) :
    wrapInt32 (cost - wrapInt32 (value - credits)) = cost - (value - credits) := by
  rw [wrapInt32_of_fits h.1, wrapInt32_of_fits h.2]

theorem worth_le {value : Int} (h : p.worth rules (card.price player) = .ok value) :
    value ≤ maxInt32 := by
  obtain ⟨-, -, hsums, rfl⟩ := worth_eq_ok.mp h
  exact (hsums _ (List.prefix_refl _) (by simp [products])).2

theorem Accepted.of_check (hpool : ∀ r, FitsInt32 (pool.get r))
    (h : p.check rules (card.price player) pool = .ok ()) : p.Accepted rules card player pool := by
  obtain ⟨hneg, hsteel, htitanium, ⟨debit, hdebit, hheld⟩, value, hworth, hcost, hneeded⟩ := check_eq_ok.mp h
  have hn := hasNegative_eq_false.mp hneg
  have hheld : ∀ r, p.taken r ≤ pool.get r := fun r =>
    get_debit hdebit r ▸ checkHeld_eq_ok.mp hheld r
  have hcredits : p.credits ≤ maxInt32 :=
    Int.le_trans (credits_le_taken hn.2.2.2) (Int.le_trans (hheld .credits) (hpool .credits).2)
  have hprice : 0 ≤ (card.price player).cost := Int.le_max_left ..
  rw [wrapped_differences (differences_fit ⟨hn.1, hcredits⟩ (worth_le hworth) hprice hcost)] at hneeded
  obtain ⟨hgranted, hproducts, hsums, rfl⟩ := worth_eq_ok.mp hworth
  exact {
    nonneg := hn
    steel := hsteel
    titanium := htitanium
    granted := hgranted
    held := hheld
    products_fit := hproducts
    sums_fit := (sumsFit_iff ⟨Int.le_trans (by decide) hn.1, hcredits⟩).mp hsums
    covered := hcost
    needed := by omega }

theorem Accepted.exists_debit (hpool : ∀ r, FitsInt32 (pool.get r))
    (h : p.Accepted rules card player pool) :
    ∃ debit, p.debit = .ok debit ∧ ∀ r, 0 ≤ debit.get r ∧ debit.get r ≤ pool.get r := by
  obtain ⟨debit, hdebit⟩ := Payment.exists_debit h.nonneg
    (fun s hs => (h.granted s hs).imp fun r hr => hr.choose_spec.1)
    fun r => Int.le_trans (h.held r) (hpool r).2
  refine ⟨debit, hdebit, fun r => ?_⟩
  rw [get_debit hdebit r]
  exact ⟨taken_nonneg h.nonneg r, h.held r⟩

theorem Accepted.exists_rest (hpool : ∀ r, FitsInt32 (pool.get r))
    (h : p.Accepted rules card player pool) : ∃ rest, p.takeFrom pool = .ok rest ∧
      ∀ r, rest.get r = pool.get r - p.taken r ∧ 0 ≤ rest.get r := by
  obtain ⟨debit, hdebit, hheld⟩ := h.exists_debit hpool
  refine ⟨_, takeFrom_eq_ok hpool hdebit (fun r => (hheld r).1) (fun r => (hheld r).2), fun r => ?_⟩
  rw [get_rest (hpool r) (hheld r).1 (hheld r).2, ← get_debit hdebit r]
  exact ⟨rfl, Int.sub_nonneg.mpr (hheld r).2⟩

theorem Accepted.check (hpool : ∀ r, FitsInt32 (pool.get r))
    (h : p.Accepted rules card player pool) : p.check rules (card.price player) pool = .ok () := by
  obtain ⟨debit, hdebit, hheld⟩ := h.exists_debit hpool
  have hcredits : FitsInt32 p.credits := by simpa [total] using h.sums_fit [] (by simp)
  have hworth : p.worth rules (card.price player) = .ok _ :=
    worth_eq_ok.mpr ⟨h.granted, h.products_fit, (sumsFit_iff hcredits).mpr h.sums_fit, rfl⟩
  have hprice : 0 ≤ (card.price player).cost := Int.le_max_left ..
  have hdifferences :=
    differences_fit ⟨h.nonneg.1, hcredits.2⟩ (worth_le hworth) hprice h.covered
  have hneeded := h.needed
  refine check_eq_ok.mpr ⟨hasNegative_eq_false.mpr h.nonneg, h.steel, h.titanium,
    ⟨debit, hdebit, checkHeld_eq_ok.mpr fun r => (hheld r).2⟩, _, hworth, h.covered, ?_⟩
  rw [wrapped_differences hdifferences]
  omega

/-- A payment is accepted exactly when it is in order, and one that is accepted can be taken. The two
differences that are computed without a check fit whenever they are computed. -/
theorem check_iff_accepted (hpool : ∀ r, FitsInt32 (pool.get r)) :
    let price := card.price player
    (p.check rules price pool = .ok () ↔ p.Accepted rules card player pool) ∧
    (p.check rules price pool = .ok () → ∃ rest, p.takeFrom pool = .ok rest ∧
      ∀ r, rest.get r = pool.get r - p.taken r ∧ 0 ≤ rest.get r) ∧
    ∀ debit value, p.hasNegative = false → p.debit = .ok debit → checkHeld debit pool = .ok () →
      p.worth rules price = .ok value → price.cost ≤ value →
      FitsInt32 (value - p.credits) ∧ FitsInt32 (price.cost - (value - p.credits)) := by
  intro price
  refine ⟨⟨Accepted.of_check hpool, fun h => h.check hpool⟩,
    fun h => (Accepted.of_check hpool h).exists_rest hpool, ?_⟩
  intro debit value hneg hdebit hheld hworth hcost
  have hn := hasNegative_eq_false.mp hneg
  have hcredits : p.credits ≤ pool.get .credits := Int.le_trans (credits_le_taken hn.2.2.2)
    (get_debit hdebit .credits ▸ checkHeld_eq_ok.mp hheld .credits)
  exact differences_fit ⟨hn.1, Int.le_trans hcredits (hpool .credits).2⟩ (worth_le hworth)
    (Int.le_max_left ..) hcost

/-- A building that costs its player 16. -/
def foundry : Card where
  id := "foundry"
  name := "Foundry"
  type := .automated
  cost := 18
  tags := [.building]

/-- Buildings are two off, and heat is worth one credit; what a later effect says of heat has no say. -/
def stoker : Player :=
  { Player.named "player" with
    effects := [
      ⟨"yard", "Yard", 0, .immediate [{ kind := .discount, amount := 2, tags := [.building] }]⟩,
      ⟨"stove", "Stove", 0, .immediate [
        { kind := .paymentSubstitute, amount := 1, resources := [.resource .heat] }]⟩,
      ⟨"boiler", "Boiler", 0, .immediate [
        { kind := .paymentSubstitute, amount := 4, resources := [.resource .heat] }]⟩] }

theorem check_iff_accepted_foundry :
    let pool : ResourceSet := { credits := 9, steel := 3, heat := 6 }
    let p : Payment := { credits := 5, steel := 3, substitutes := [(.resource .heat, 5)] }
    (∀ r, FitsInt32 (pool.get r)) ∧ p.Accepted {} foundry stoker pool ∧
      ¬{ p with credits := 6 }.Accepted {} foundry stoker pool ∧
      (∃ rest, p.takeFrom pool = .ok rest ∧ ∀ r, rest.get r = pool.get r - p.taken r ∧ 0 ≤ rest.get r) ∧
      FitsInt32 (16 - 5) ∧ FitsInt32 (16 - (16 - 5)) := by
  intro pool p
  have hpool : ∀ r, FitsInt32 (pool.get r) := by intro r; cases r <;> decide
  obtain ⟨hiff, htake, hfits⟩ := @check_iff_accepted p {} foundry stoker pool hpool
  have hcheck : p.check {} (foundry.price stoker) pool = .ok () := rfl
  exact ⟨hpool, hiff.mp hcheck, fun h => absurd h.needed (by decide +kernel), htake hcheck,
    hfits { credits := 5, steel := 3, heat := 5 } 16 rfl rfl rfl rfl (by decide +kernel)⟩

end Payment

end MarsRules
