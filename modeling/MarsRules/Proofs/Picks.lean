import MarsRules.Proofs.Atomicity
import MarsRules.Proofs.Subscribed
import MarsRules.Proofs.Successive

/-! Choosing among drawn cards where writes can fail. The price, the hand and the offer are written in
turn and nothing puts them back, so that a choice which is refused may have been paid for, and may have
brought its cards into the hand (`Engine.confirmDraw_halts`). The offer is then still open, and making
the choice again pays and deals once more. -/

namespace MarsRules

theorem ResourceSet.add_add (s : ResourceSet) (r : BaseResource) {m n : Int}
    (h : m + n = 0 → m = 0) : (s.add r m).add r n = s.add r (m + n) := by
  ext q
  simp only [get_addOne]
  split
  · exact addInt32_addInt32 h _
  · simp

theorem ResourceSet.addOne_zero (s : ResourceSet) (r : BaseResource) : s.add r 0 = s := by
  ext q
  simp [get_addOne]

/-- What a choice among the drawn cards writes, in this order. -/
def DrawOffer.writes (o : DrawOffer) (x : Player) (picked : List CardId) : List PlayerField :=
  (if 0 < o.cost picked.length then [.resources (x.resources.add .credits (-o.cost picked.length))] else []) ++
    [.hand (x.hand ++ picked), .drawOffer none]

theorem DrawOffer.writes_nodup (o : DrawOffer) (x : Player) (picked : List CardId) :
    ((o.writes x picked).map PlayerField.write).Nodup := by
  unfold writes
  split <;> simp [PlayerField.write]

namespace Player

def price (x : Player) (picked : List CardId) : Int :=
  max 0 (x.drawOffer.elim 0 (·.cost picked.length))

theorem price_eq {x : Player} {o : DrawOffer} (picked : List CardId) (ho : x.drawOffer = some o) :
    x.price picked = max 0 (o.cost picked.length) := by
  unfold price
  rw [ho]
  rfl

theorem price_mem (x : Player) (picked : List CardId) :
    0 ≤ x.price picked ∧ x.price picked ≤ maxInt32 := by
  unfold price
  cases x.drawOffer with
  | none => simp [maxInt32]
  | some o =>
    have : o.cost picked.length ≤ maxInt32 := (fits_wrapInt32 _).2
    simp only [Option.elim_some, maxInt32] at *
    omega

/-- The record when these cards have been paid for, and have come into the hand, so many times. -/
def taking (x : Player) (picked : List CardId) (payments copies : Nat) : Player :=
  { x with
    resources := x.resources.add .credits (-(payments * x.price picked))
    hand := x.hand ++ (List.replicate copies picked).flatten }

@[simp] theorem taking_price (x : Player) (picked : List CardId) (m n : Nat) :
    (x.taking picked m n).price picked = x.price picked := rfl

theorem taking_taking (x : Player) (picked : List CardId) (m n m' n' : Nat) :
    (x.taking picked m n).taking picked m' n' = x.taking picked (m + m') (n + n') := by
  have hpaid : -(m * x.price picked) + -(m' * x.price picked) = -((m + m' : Nat) * x.price picked) := by
    rw [Int.natCast_add, Int.add_mul, Int.neg_add]
  have hhand : x.hand ++ (List.replicate n picked).flatten ++ (List.replicate n' picked).flatten =
      x.hand ++ (List.replicate (n + n') picked).flatten := by
    rw [List.append_assoc, ← List.flatten_append, List.replicate_append_replicate]
  have hcancel : -(m * x.price picked) + -(m' * x.price picked) = 0 → -(m * x.price picked) = 0 := by
    have := Int.mul_nonneg (Int.natCast_nonneg m) (x.price_mem picked).1
    have := Int.mul_nonneg (Int.natCast_nonneg m') (x.price_mem picked).1
    omega
  rw [taking, taking_price]
  simp only [taking, ResourceSet.add_add _ _ hcancel, hpaid, hhand]

theorem taking_eq_self {x : Player} {picked : List CardId} {m n : Nat} (hm : m ≤ 1) :
    x.taking picked m n = x ↔ m * x.price picked = 0 ∧ (n = 0 ∨ picked = []) := by
  constructor
  · intro h
    have hcredits := congrArg (·.resources.get .credits) h
    have hhand := congrArg (·.hand) h
    simp only [taking, ResourceSet.get_addOne, if_true, List.append_right_eq_self,
      List.flatten_eq_nil_iff, List.mem_replicate] at hcredits hhand
    refine ⟨?_, ?_⟩
    · have := x.price_mem picked
      have hpaid : -4294967296 < -(m * x.price picked) ∧ -(m * x.price picked) < 4294967296 := by
        simp only [maxInt32] at this
        obtain rfl | rfl := Nat.le_one_iff_eq_zero_or_eq_one.mp hm <;> omega
      have := (addInt32_eq_self hpaid).mp hcredits
      omega
    by_cases hn : n = 0
    · exact .inl hn
    · exact .inr (hhand picked ⟨hn, rfl⟩)
  · rintro ⟨hpaid, hhand⟩
    have hnone : (List.replicate n picked).flatten = [] := by
      rcases hhand with rfl | rfl <;> simp
    simp [taking, hpaid, hnone, ResourceSet.addOne_zero]

end Player

namespace World

/-- The choice can be looked at, and is allowed. -/
structure Allows (w : World) (p : PlayerId) (picked : List CardId) (x : Player) (o : DrawOffer) :
    Prop where
  served : w.store.serves (Read.player : Call) = true
  player : w.player? p = some x
  offered : x.drawOffer = some o
  allowed : o.check picked x.resources.credits = .ok ()

/-- The choice is allowed, and the first of its writes that makes a difference gets through. -/
def Begins (w : World) (p : PlayerId) (picked : List CardId) : Prop :=
  ∃ x o, w.Allows p picked x o ∧
    if 0 < o.cost picked.length then w.store.serves (Write.resources : Call) = true
    else picked ≠ [] ∧ w.store.serves (Write.hand : Call) = true

end World

namespace Engine

open World (Written)

variable {book : Rulebook} {p : PlayerId} {picked : List CardId} {w v u : World} {x : Player}
  {o : DrawOffer} {e : Refusal} {b : Bool}

theorem commitDraw_eq (p : PlayerId) (picked : List CardId) : commitDraw p picked = (do
    let player ← readPlayer p
    match player.drawOffer with
    | none => refuse (.invalidSelection "no card draw is pending")
    | some offer =>
      offer.check picked player.resources.credits
      updateAll p (offer.writes player picked)
      return .drawConfirmed
        { game := ← gameId, player := p, source := offer.source, cards := picked }) := by
  unfold commitDraw
  congr 1
  funext player
  cases player.drawOffer with
  | none => rfl
  | some offer =>
    simp only [DrawOffer.writes, updateAll]
    split <;> simp [List.forM_cons, bind_assoc]

theorem commitDraw_of_allows (h : w.Allows p picked x o) :
    ∃ v, Written p (w.store.reached (o.writes x picked)) w v ∧
      ((w.store.reached (o.writes x picked) = o.writes x picked ∧
          ∃ event, commitDraw p picked w = (.ok event, v)) ∨
        (w.store.reached (o.writes x picked) ≠ o.writes x picked ∧
          commitDraw p picked w = (.error (.refused Store.unavailable true), v))) := by
  obtain ⟨u, hu, ha, hspent⟩ := readPlayer_of_serves h.served h.player
  obtain ⟨v, hv, hwritten⟩ :=
    updateAll_written (o.writes_nodup x picked) ((ha.player? p).trans h.player)
  have hsame : u.store.reached (o.writes x picked) = w.store.reached (o.writes x picked) :=
    Store.reached_congr fun f _ => hspent.serves (by simp)
  rw [hsame] at hv hwritten
  have hcheck : (liftM (o.check picked x.resources.credits) : Engine Unit) u = (.ok (), u) :=
    ofExcept_eq_ok.mpr ⟨h.allowed, rfl⟩
  refine ⟨v, .after ha hwritten, ?_⟩
  rw [commitDraw_eq, Steps.bind_apply_ok hu, h.offered]
  dsimp only
  rw [Steps.bind_apply_ok hcheck]
  by_cases hall : w.store.reached (o.writes x picked) = o.writes x picked
  · rw [if_pos hall] at hv
    rw [Steps.bind_apply_ok hv]
    exact .inl ⟨hall, _, rfl⟩
  · rw [if_neg hall] at hv
    rw [Steps.bind_apply_error hv]
    exact .inr ⟨hall, rfl⟩

theorem commitDraw_of_not_allows {result : Except Stop Event} (h : ∀ x o, ¬ w.Allows p picked x o)
    (hv : commitDraw p picked w = (result, v)) : World.Alike w v ∧ ∃ stop, result = .error stop := by
  rw [commitDraw_eq] at hv
  rcases Steps.bind_cases hv with ⟨stop, hread, rfl⟩ | ⟨x, u, hread, hv⟩
  · exact ⟨(readPlayer_alike p).apply hread, stop, rfl⟩
  obtain ⟨hp, ha⟩ := readPlayer_ok hread
  cases ho : x.drawOffer with
  | none =>
    simp only [ho] at hv
    cases hv
    exact ⟨ha, _, rfl⟩
  | some o =>
    simp only [ho] at hv
    rcases Steps.bind_cases hv with ⟨stop, hcheck, rfl⟩ | ⟨_, t, hcheck, -⟩
    · exact ⟨Trans.trans ha ((ofExcept_alike _).apply hcheck), stop, rfl⟩
    · exact absurd ⟨serves_of_readPlayer hread, hp, ho, (ofExcept_eq_ok.mp hcheck).1⟩ (h x o)

theorem putAll_reached_hand {s : Store} {cards : List CardId}
    (hs : s.reached [.hand cards, .drawOffer none] ≠ [.hand cards, .drawOffer none]) (x : Player) :
    x.putAll (s.reached [.hand cards, .drawOffer none]) =
      if s.serves (Write.hand : Call) then { x with hand := cards } else x := by
  rw [Store.reached_pair hs, PlayerField.write]
  split <;> rfl

theorem putAll_reached {s : Store} (ho : x.drawOffer = some o)
    (hs : s.reached (o.writes x picked) ≠ o.writes x picked) :
    ∃ payments copies, copies ≤ payments ∧ payments ≤ 1 ∧
      x.putAll (s.reached (o.writes x picked)) = x.taking picked payments copies ∧
      (x.taking picked payments copies = x ↔ ¬ if 0 < o.cost picked.length
        then s.serves (Write.resources : Call) = true
        else picked ≠ [] ∧ s.serves (Write.hand : Call) = true) := by
  have hprice := Player.price_eq picked ho
  have hself : x.taking picked 0 0 = x := (Player.taking_eq_self (Nat.zero_le 1)).mpr (by simp)
  by_cases hcost : 0 < o.cost picked.length
  · have hpays : x.price picked = o.cost picked.length := by omega
    have hwrites : o.writes x picked = .resources (x.resources.add .credits (-o.cost picked.length)) ::
        [.hand (x.hand ++ picked), .drawOffer none] := by simp [DrawOffer.writes, hcost]
    rw [hwrites] at hs ⊢
    rw [Store.reached_cons]
    rw [ne_eq, Store.reached_cons_eq_self, not_and] at hs
    cases hr : s.serves (Write.resources : Call) with
    | false =>
      refine ⟨0, 0, Nat.le_refl _, Nat.zero_le _, ?_, by simp [hself, hcost]⟩
      simp [PlayerField.write, hr, Player.putAll, hself]
    | true =>
      have hmoved (n : Nat) : x.taking picked 1 n ≠ x := by
        rw [Ne, Player.taking_eq_self (Nat.le_refl 1)]
        omega
      refine ⟨1, if s.serves (Write.hand : Call) then 1 else 0, by split <;> simp, Nat.le_refl _, ?_,
        by simp [hmoved, hcost]⟩
      rw [if_pos (by exact hr)]
      refine (putAll_reached_hand (hs hr) _).trans ?_
      split <;> simp [PlayerField.put, Player.taking, hpays]
  · have hpays : x.price picked = 0 := by omega
    have hwrites : o.writes x picked = [.hand (x.hand ++ picked), .drawOffer none] := by
      simp [DrawOffer.writes, hcost]
    rw [hwrites] at hs ⊢
    rw [putAll_reached_hand hs]
    cases s.serves (Write.hand : Call) with
    | false => exact ⟨0, 0, Nat.le_refl _, Nat.zero_le _, hself.symm, by simp [hself, hcost]⟩
    | true =>
      refine ⟨1, 1, Nat.le_refl _, Nat.le_refl _, ?_, ?_⟩
      · simp [Player.taking, hpays, ResourceSet.addOne_zero]
      · simp [Player.taking_eq_self, hpays, hcost]

theorem putAll_writes (ho : x.drawOffer = some o) :
    x.putAll (o.writes x picked) = { x.taking picked 1 1 with drawOffer := none } := by
  have hprice := Player.price_eq picked ho
  by_cases hcost : 0 < o.cost picked.length
  · have hpays : x.price picked = o.cost picked.length := by omega
    simp [DrawOffer.writes, hcost, Player.putAll, PlayerField.put, Player.taking, hpays]
  · have hpays : x.price picked = 0 := by omega
    simp [DrawOffer.writes, hcost, Player.putAll, PlayerField.put, Player.taking, hpays,
      ResourceSet.addOne_zero]

theorem commitDraw_takes {event : Event} (h : commitDraw p picked w = (.ok event, v))
    (hp : w.player? p = some x) :
    v.player? p = some { x.taking picked 1 1 with drawOffer := none } := by
  by_cases hallows : ∃ x o, w.Allows p picked x o
  · obtain ⟨y, o, hy⟩ := hallows
    obtain rfl := Option.some.inj (hp.symm.trans hy.player)
    obtain ⟨u, hwritten, ⟨hall, event', hu⟩ | ⟨-, hu⟩⟩ := commitDraw_of_allows hy
    · cases h.symm.trans hu
      rw [hall] at hwritten
      rw [hwritten.player? hp, putAll_writes hy.offered]
    · cases h.symm.trans hu
  · obtain ⟨-, stop, hstop⟩ := commitDraw_of_not_allows (by simpa using hallows) h
    cases hstop

theorem commitDraw_again {m n : Nat} {event : Event}
    (hr : v.records = w.records.changePlayer w.game p (·.taking picked m n)) (hg : v.game = w.game)
    (outages : Call → List Outage) (hu : commitDraw p picked (v.withOutages outages) = (.ok event, u))
    (hp : w.player? p = some x) :
    u.player? p = some { x.taking picked (m + 1) (n + 1) with drawOffer := none } := by
  have hthere : (v.withOutages outages).player? p = some (x.taking picked m n) := by
    show v.records.player? v.game p = _
    rw [hr, hg, Records.player?_changePlayer (f := (·.taking picked m n)) fun _ hid => hid]
    exact congrArg (Option.map _) hp
  rw [commitDraw_takes hu hthere, Player.taking_taking]

theorem begins_iff (h : w.Allows p picked x o) : w.Begins p picked ↔ if 0 < o.cost picked.length
    then w.store.serves (Write.resources : Call) = true
    else picked ≠ [] ∧ w.store.serves (Write.hand : Call) = true := by
  refine ⟨?_, fun hfirst => ⟨x, o, h, hfirst⟩⟩
  rintro ⟨x', o', h', hfirst⟩
  obtain rfl := Option.some.inj (h.player.symm.trans h'.player)
  obtain rfl := Option.some.inj (h.offered.symm.trans h'.offered)
  exact hfirst

/-- What is left of a choice that is refused: the payments and copies that were written. -/
structure Taken (p : PlayerId) (picked : List CardId) (payments copies : Nat) (w v : World) : Prop where
  session : v.session = w.session
  decks : v.store.decks = w.store.decks
  begins : v.player? p = w.player? p ↔ ¬ w.Begins p picked
  records : v.records = w.records.changePlayer w.game p (·.taking picked payments copies)

theorem taken_of_allows (hx : w.Allows p picked x o)
    (hv : commitDraw p picked w = (.error (.refused e b), v)) :
    ∃ payments copies, copies ≤ payments ∧ payments ≤ 1 ∧ Taken p picked payments copies w v := by
  obtain ⟨u, hwritten, ⟨-, event, hu⟩ | ⟨hsome, hu⟩⟩ := commitDraw_of_allows hx
  · cases hv.symm.trans hu
  cases hv.symm.trans hu
  obtain ⟨payments, copies, hcopies, hpayments, htaken, hself⟩ := putAll_reached hx.offered hsome
  refine ⟨payments, copies, hcopies, hpayments, hwritten.session, hwritten.decks, ?_, ?_⟩
  · rw [hwritten.player? hx.player, hx.player, htaken, Option.some.injEq, hself, begins_iff hx]
  · rw [hwritten.records]
    refine Records.changePlayer_congr fun y hy => ?_
    obtain rfl := Option.some.inj (hx.player.symm.trans hy)
    exact htaken

theorem taken_of_not_allows (h : ∀ x o, ¬ w.Allows p picked x o)
    (hv : commitDraw p picked w = (.error (.refused e b), v)) : Taken p picked 0 0 w v := by
  obtain ⟨ha, -⟩ := commitDraw_of_not_allows h hv
  refine ⟨ha.session, ha.store.decks,
    ⟨fun _ ⟨x, o, hx, _⟩ => h x o hx, fun _ => ha.player? p⟩, ha.store.records.trans ?_⟩
  rw [← Records.changePlayer_id (r := w.store.records) (g := w.game) (p := p)]
  congr 1
  funext x
  exact ((Player.taking_eq_self (Nat.zero_le 1)).mpr (by simp)).symm

/-- A choice that is refused leaves a record on which the price has been paid `payments` times, and the
cards have come into the hand `copies` times; nothing else has changed. It is the record as it was exactly
if the choice was not allowed, or the first write that makes a difference failed. Made again it pays and
deals once more, on top of that. -/
theorem confirmDraw_halts (h : confirmDraw book p picked w = (.error (.refused e b), v)) :
    v.session = w.session ∧ v.store.decks = w.store.decks ∧
      (v.player? p = w.player? p ↔ ¬ w.Begins p picked) ∧
      ∃ payments copies, copies ≤ payments ∧ payments ≤ 1 ∧
        v.records = w.records.changePlayer w.game p (·.taking picked payments copies) ∧
        ∀ outages event u x, commitDraw p picked (v.withOutages outages) = (.ok event, u) →
          w.player? p = some x →
            u.player? p = some { x.taking picked (payments + 1) (copies + 1) with drawOffer := none } := by
  have hcommit : commitDraw p picked w = (.error (.refused e b), v) := by
    rcases Steps.bind_eq_error.mp h with h | ⟨event, u, -, h⟩
    · exact h
    · exact absurd rfl (announce_neverRefuses book [event] u _ v h e b)
  have htaken : ∃ payments copies, copies ≤ payments ∧ payments ≤ 1 ∧
      Taken p picked payments copies w v := by
    by_cases hallows : ∃ x o, w.Allows p picked x o
    · obtain ⟨x, o, hx⟩ := hallows
      exact taken_of_allows hx hcommit
    · exact ⟨0, 0, Nat.le_refl _, Nat.zero_le _, taken_of_not_allows (by simpa using hallows) hcommit⟩
  obtain ⟨payments, copies, hcopies, hpayments, ht⟩ := htaken
  exact ⟨ht.session, ht.decks, ht.begins, payments, copies, hcopies, hpayments, ht.records,
    fun outages _ _ _ hu hp => commitDraw_again ht.records (congrArg Session.game ht.session) outages hu hp⟩

def research : DrawOffer where
  cards := ["ants", "birds"]
  free := 1
  maxBought := 1
  price := 3
  source := "research"

/-- Somebody with ten credits may choose, and this call fails once. -/
def choosing (failing : Write) : World where
  store := {
    games := [("game", { id := "game" })]
    rosters := [("game", [{ Player.named "player" with
      resources := { credits := 10 }
      drawOffer := some research }])]
    outages := fun c => if c = .write failing then [{ times := 1 }] else [] }
  session := { game := "game" }

def plainRules : Rulebook := { catalog := ⟨[]⟩, rules := {}, depth := 8 }

theorem confirmDraw_halts_research :
    let w := choosing .hand
    let after := confirmDraw plainRules "player" ["ants", "birds"] w
    after.1 = .error (.refused Store.unavailable true) ∧ w.Begins "player" ["ants", "birds"] ∧
      after.2.player? "player" ≠ w.player? "player" := by
  intro w after
  have h : after.1 = .error (.refused Store.unavailable true) := rfl
  have hbegins : w.Begins "player" ["ants", "birds"] := ⟨_, research, ⟨rfl, rfl, rfl, rfl⟩, rfl⟩
  exact ⟨h, hbegins, mt (confirmDraw_halts (Prod.ext h rfl)).2.2.1.mp (not_not.mpr hbegins)⟩

/-- What the player holds once a choice has been refused and has been made again. -/
def heldAfter (failing : Write) : Option (Int × List CardId) :=
  let refused := confirmDraw plainRules "player" ["ants", "birds"] (choosing failing)
  let made := confirmDraw plainRules "player" ["ants", "birds"] refused.2
  match refused.1, made.1 with
  | .error _, .ok () => (made.2.player? "player").map fun x => (x.resources.credits, x.hand)
  | _, _ => none

/-- The one card that is bought for three credits is paid for twice, and both come twice into the hand if
the offer could not be closed. -/
theorem confirmDraw_repeats :
    heldAfter .resources = some (7, ["ants", "birds"]) ∧ heldAfter .hand = some (4, ["ants", "birds"]) ∧
      heldAfter .drawOffer = some (4, ["ants", "birds", "ants", "birds"]) := ⟨rfl, rfl, rfl⟩

end Engine

end MarsRules
