import MarsRules.Proofs.Cards
import MarsRules.Proofs.FreeDraws
import MarsRules.Proofs.Payments
import MarsRules.Proofs.Payouts
import MarsRules.Proofs.Picks
import MarsRules.Proofs.Stages

/-! Which of the drawn cards can be kept, and what that costs. Where no call can fail a choice is made
exactly if the cards were drawn, are not too many and can be paid for, and then it is paid once
(`Engine.confirmDraw_settles`). -/

namespace MarsRules

open Steps (Keeps StopsOnly)

namespace DrawOffer

variable {o : DrawOffer} {picked before : List CardId} {credits : Int}

theorem checkPicked_eq_ok : o.checkPicked before picked = .ok () ↔
    picked.Nodup ∧ picked ⊆ o.cards ∧ ∀ c ∈ before, c ∉ picked := by
  refine ⟨Engine.DrawOffer.checkPicked_ok, ?_⟩
  rintro ⟨hnodup, hdrawn, hbefore⟩
  induction picked generalizing before with
  | nil => rfl
  | cons c rest ih =>
    obtain ⟨hc, hrest⟩ := List.nodup_cons.mp hnodup
    obtain ⟨hmem, hsub⟩ := List.cons_subset.mp hdrawn
    have hnew : c ∉ before := fun h => hbefore c h (List.mem_cons_self ..)
    unfold checkPicked
    rw [if_neg (by simpa using hmem), if_neg (by simpa using hnew)]
    refine ih hrest hsub fun b hb => ?_
    rcases List.mem_append.mp hb with hb | hb
    · exact fun h => hbefore b hb (List.mem_cons_of_mem _ h)
    · exact List.mem_singleton.mp hb ▸ hc

theorem cost_eq (n : Nat) : o.cost n = wrapInt32 (max 0 ((n : Int) - o.free) * o.price) := by
  rw [cost, bought, show ((n - o.free : Nat) : Int) = max 0 ((n : Int) - o.free) by omega]

theorem check_eq_ok : o.check picked credits = .ok () ↔
    picked.Nodup ∧ picked ⊆ o.cards ∧ picked.length ≤ addNat32 o.free o.maxBought ∧
      (0 < o.cost picked.length → o.cost picked.length ≤ credits) := by
  unfold check
  simp only [except_bind_eq_ok, ite_throw_bind_eq_ok, ite_throw_eq_ok]
  constructor
  · rintro ⟨⟨⟩, hpicked, hcount, hpaid, -⟩
    obtain ⟨hnodup, hdrawn, -⟩ := checkPicked_eq_ok.mp hpicked
    exact ⟨hnodup, hdrawn, by omega, by omega⟩
  · rintro ⟨hnodup, hdrawn, hcount, hpaid⟩
    have hpicked : o.checkPicked [] picked = .ok () :=
      checkPicked_eq_ok.mpr ⟨hnodup, hdrawn, List.forall_mem_nil _⟩
    exact ⟨(), hpicked, by omega, by omega, rfl⟩

theorem Free.check {left : Nat} (h : o.Free left) (hnodup : picked.Nodup) (hdrawn : picked ⊆ o.cards)
    (credits : Int) : o.check picked credits = .ok () ∧ o.cost picked.length = 0 := by
  have hcount : picked.length ≤ o.free :=
    Nat.le_trans (List.subperm_of_subset hnodup hdrawn).length_le h.covered
  have hcost : o.cost picked.length = 0 := by
    rw [cost_eq, show max 0 ((picked.length : Int) - o.free) = 0 by omega, Int.zero_mul,
      wrapInt32_zero]
  have hlimit : picked.length ≤ addNat32 o.free o.maxBought := by
    rwa [h.unsold, addNat32_zero]
  refine ⟨check_eq_ok.mpr ⟨hnodup, hdrawn, hlimit, ?_⟩, hcost⟩
  omega

end DrawOffer

theorem Store.Reliable.reached {s : Store} (h : s.Reliable) (fs : List PlayerField) : s.reached fs = fs := by
  induction fs with
  | nil => rfl
  | cons f rest ih => exact reached_cons_eq_self.mpr ⟨(h.call f.write).1, ih⟩

/-- An entry that says how far this player's first action has come. -/
def Entry.Forces (p : PlayerId) (e : Entry) : Prop := ∃ f, e = .player p (.forced f)

theorem Records.putAll_forces {r : Records} {g : GameId} {p : PlayerId} {x : Player} {es : List Entry}
    (h : ∀ e ∈ es, e.Forces p) (hx : r.player? g p = some x) :
    ∃ f, r.putAll g es = r.changePlayer g p (PlayerField.forced f).put := by
  induction es generalizing r x with
  | nil =>
    refine ⟨x.forced, (changePlayer_of_player? fun y hy => ?_).symm⟩
    obtain rfl := Option.some.inj (hx.symm.trans hy)
    rfl
  | cons e rest ih =>
    obtain ⟨⟨f, rfl⟩, hrest⟩ := List.forall_mem_cons.mp h
    have hid (y : Player) : ((PlayerField.forced f).put y).id = y.id := PlayerField.id_put _ y
    have hthere : ((Entry.player p (.forced f)).put g r).player? g p = some ((PlayerField.forced f).put x) := by
      rw [Entry.put, player?_changePlayer fun y hy => (hid y).trans hy, hx]
      rfl
    obtain ⟨f', hf'⟩ := ih hrest hthere
    refine ⟨f', ?_⟩
    rw [putAll_cons, hf', Entry.put, changePlayer_changePlayer fun y hy => (hid y).trans hy]
    rfl

theorem Listener.react_forces (book : Rulebook) (e : DrawConfirmed) (l : Listener) :
    Keeps (World.Wrote (Entry.Forces e.player)) (l.react book (.drawConfirmed e)) := by
  cases l with
  | recorder => exact fun w => ⟨rfl, rfl, rfl, Std.Refl.refl _⟩
  | forcedAction =>
    refine Keeps.bind ?_ fun _ => Keeps.pure _
    refine Keeps.bind (fun w => (Engine.gameId_alike w).wrote) fun g => ?_
    split
    · exact Keeps.pure _
    · refine Keeps.bind (fun w => (Engine.readPlayer_alike e.player w).wrote) fun player => ?_
      split
      · exact Keeps.pure _
      · split
        · exact Engine.update_wrote ⟨_, rfl⟩
        · exact Keeps.pure _
  | effect owner effect =>
    intro w
    rcases h : effect.react book.rules owner (.drawConfirmed e) w with ⟨r, v⟩
    show World.Wrote _ w (effect.react book.rules owner (.drawConfirmed e) w).2
    rw [h]
    rcases CardEffect.react_cases h with ⟨ha, -⟩ | ⟨_, _, _, hanswers, -⟩
    · exact ha.wrote
    · simp [CardEffect.Answers, Condition.isMetBy] at hanswers

namespace Engine

variable (book : Rulebook) {p : PlayerId} {picked : List CardId} {w v : World} {x : Player} {o : DrawOffer}

theorem announce_drawConfirmed (depth : Nat) (e : DrawConfirmed) (w : World) :
    ∃ v, announce { book with depth := depth + 1 } [.drawConfirmed e] w = (.ok (), v) ∧
      World.Wrote (Entry.Forces e.player) w v := by
  have hinert : (Event.drawConfirmed e).Inert := fun _ => rfl
  have hstops : StopsOnly (fun _ => False) (announce { book with depth := depth + 1 } [.drawConfirmed e]) :=
    ((publishWithin_inert hinert depth).bind fun _ => StopsOnly.pure _).bind fun _ => StopsOnly.pure _
  have hwrote : Keeps (World.Wrote (Entry.Forces e.player))
      (announce { book with depth := depth + 1 } [.drawConfirmed e]) := by
    refine Keeps.bind (Keeps.bind ?_ fun _ => Keeps.pure _) fun _ => Keeps.pure _
    refine publishWithin_keeps_of (Listener.react_forces _ e) fun l w events v h e' he' => ?_
    rw [(l.react_inert hinert _).2 w events v h] at he'
    cases he'
  rcases h : announce { book with depth := depth + 1 } [.drawConfirmed e] w with ⟨stop | _, v⟩
  · exact (hstops w stop v h).elim
  · exact ⟨v, rfl, hwrote.apply h⟩

theorem confirmDraw_of_check (hw : w.store.Reliable) (hp : w.player? p = some x) (ho : x.drawOffer = some o)
    (hcheck : o.check picked x.resources.credits = .ok ()) (depth : Nat) :
    ∃ v forced, confirmDraw { book with depth := depth + 1 } p picked w = (.ok (), v) ∧
      v.records = w.records.changePlayer w.game p fun _ =>
        { x.taking picked 1 1 with drawOffer := none, forced } := by
  have hallows : w.Allows p picked x o := ⟨(hw.call _).1, hp, ho, hcheck⟩
  have hall := hw.reached (o.writes x picked)
  obtain ⟨u, hu, ⟨-, event, hcommit⟩ | ⟨hsome, -⟩⟩ := commitDraw_of_allows hallows
  · rw [hall] at hu
    obtain ⟨_, offer, -, -, -, -, -, hevent⟩ :=
      (commitDraw_cases hcommit).resolve_left (by rintro ⟨⟨_, he⟩, _⟩; cases he)
    obtain rfl := Except.ok.inj hevent
    obtain ⟨v, hannounced, hwrote⟩ := announce_drawConfirmed book depth
      { game := u.game, player := p, source := offer.source, cards := picked } u
    have hthere := hu.player? hp
    rw [putAll_writes ho] at hthere
    obtain ⟨es, hrecords, hes⟩ := hwrote.store
    obtain ⟨forced, hforced⟩ := Records.putAll_forces (r := u.records) (g := u.game) (p := p) hes hthere
    refine ⟨v, forced, (Steps.bind_apply_ok hcommit).trans hannounced, ?_⟩
    have hr : v.records = u.records.putAll u.game es := hrecords
    rw [hr, hforced, hu.game, hu.records, Records.changePlayer_changePlayer fun y hy => (y.putAll_id _).trans hy]
    refine Records.changePlayer_congr fun y hy => ?_
    obtain rfl := Option.some.inj (hp.symm.trans hy)
    show PlayerField.put _ (x.putAll _) = _
    rw [putAll_writes ho]
    rfl
  · exact absurd hall hsome

theorem confirmDraw_of_not_check (hp : w.player? p = some x) (ho : x.drawOffer = some o)
    (hcheck : o.check picked x.resources.credits ≠ .ok ()) :
    (confirmDraw book p picked w).1 ≠ .ok () := by
  have hnone : ∀ y o', ¬ w.Allows p picked y o' := by
    rintro y o' ⟨-, hy, ho', hallowed⟩
    obtain rfl := Option.some.inj (hp.symm.trans hy)
    obtain rfl := Option.some.inj (ho.symm.trans ho')
    exact hcheck hallowed
  rcases hcommit : commitDraw p picked w with ⟨result, v⟩
  obtain ⟨-, stop, rfl⟩ := commitDraw_of_not_allows hnone hcommit
  rw [confirmDraw, Steps.bind_apply_error hcommit]
  nofun

/-- Where no call can fail, a choice is made exactly if its cards are distinct, were drawn, are no more than
may be kept, and can be paid for. Then they are paid for, come to the hand in their order, and the offer is
closed. The limit and the price are numbers of 32 bits, and exact where they fit. In a session that starts with no cards on offer, and with a deck that can be counted, all that is on
offer can always be had for nothing. -/
theorem confirmDraw_settles (book : Rulebook) (w₀ : World) :
    (∀ depth w p x o picked, w.store.Reliable → w.player? p = some x → x.drawOffer = some o →
      let due : Int := max 0 ((picked.length : Int) - o.free) * o.price
      let price := wrapInt32 due
      let limit := addNat32 o.free o.maxBought
      let (result, v) := confirmDraw { book with depth := depth + 1 } p picked w
      (result = .ok () ↔ picked.Nodup ∧ picked ⊆ o.cards ∧ picked.length ≤ limit ∧
        (0 < price → price ≤ x.resources.credits)) ∧
      (result = .ok () → ∃ forced, v.records = w.records.changePlayer w.game p fun _ =>
        { x with
          resources := x.resources.add .credits (-(max 0 price))
          hand := x.hand ++ picked
          drawOffer := none
          forced }) ∧
      (FitsInt32 due → price = due) ∧
      (o.free + o.maxBought ≤ maxNat32 → limit = o.free + o.maxBought)) ∧
    (w₀.deck.length < 2 ^ 32 → (∀ p x, w₀.player? p = some x → x.drawOffer = none) →
      ∀ w, Dealings book w₀ w → ∀ p x o, w.player? p = some x → x.drawOffer = some o →
        o.cards.length ≤ o.free ∧ ∀ picked credits, picked.Nodup → picked ⊆ o.cards →
          o.check picked credits = .ok () ∧ o.cost picked.length = 0) := by
  constructor
  · intro depth w p x o picked hw hp ho due price limit
    have hcheck : o.check picked x.resources.credits = .ok () ↔
        picked.Nodup ∧ picked ⊆ o.cards ∧ picked.length ≤ limit ∧
          (0 < price → price ≤ x.resources.credits) := by
      rw [DrawOffer.check_eq_ok, DrawOffer.cost_eq]
    have hexact : (FitsInt32 due → price = due) ∧
        (o.free + o.maxBought ≤ maxNat32 → limit = o.free + o.maxBought) :=
      ⟨wrapInt32_of_fits, addNat32_exact⟩
    by_cases hok : o.check picked x.resources.credits = .ok ()
    · obtain ⟨v, forced, hconfirm, hrecords⟩ := confirmDraw_of_check book hw hp ho hok depth
      rw [hconfirm]
      refine ⟨iff_of_true rfl (hcheck.mp hok), fun _ => ⟨forced, ?_⟩, hexact⟩
      rw [hrecords, Player.taking, Player.price_eq picked ho, DrawOffer.cost_eq]
      simp [price, due]
    · have hrefused := confirmDraw_of_not_check { book with depth := depth + 1 } hp ho hok
      exact ⟨iff_of_false hrefused (mt hcheck.mpr hok), fun h => absurd h hrefused, hexact⟩
  · intro hdeck hnone w hrun p x o hp ho
    have hfree : o.Free w.deck.length := (hrun.gratis hdeck hnone).offers p x hp o ho
    exact ⟨hfree.covered, fun picked credits hnodup hdrawn => hfree.check hnodup hdrawn credits⟩

/-- So many draws from a deck of two cards. -/
def looked : Nat → World
  | 0 => Log.tower
  | n + 1 => ((Ask.apply "player" Log.lookout none none).reply Log.watchtower
      ((looked n).withOutages fun _ => [])).2

theorem looked_dealings (n : Nat) : Dealings Log.watchtower Log.tower (looked n) := by
  induction n with
  | zero => exact .start
  | succ n ih => exact .asked ih (fun _ => []) (.apply "player" Log.lookout none none)

/-- One card for nothing with one that is bought for three credits, and three draws from two cards. -/
theorem confirmDraw_settles_lookout :
    (confirmDraw plainRules "player" ["ants", "birds"] ((choosing .hand).withOutages fun _ => [])).1 =
      .ok () ∧
    ∃ x o, (looked 3).player? "player" = some x ∧ x.drawOffer = some o ∧ o.cards = ["ants", "birds"] ∧
      o.cards.length ≤ o.free ∧ o.check ["birds"] 0 = .ok () := by
  have hreliable : ((choosing .hand).withOutages fun _ => []).store.Reliable :=
    fun _ _ ho => absurd ho List.not_mem_nil
  have hsettles := (confirmDraw_settles plainRules Log.tower).1 7 _ "player" _ research ["ants", "birds"]
    hreliable rfl rfl
  refine ⟨hsettles.1.mpr (by decide), ?_⟩
  have hempty (p : PlayerId) (x : Player) (hx : Log.tower.player? p = some x) : x.drawOffer = none := by
    unfold World.player? Records.player? at hx
    have hmem : x ∈ Log.tower.records.roster "game" := List.mem_of_find?_eq_some hx
    obtain rfl : x = { Player.named "player" with hand := ["lookout"] } := List.mem_singleton.mp hmem
    rfl
  have hlooked : ((looked 3).player? "player").map (fun x => x.drawOffer.map (·.cards)) =
      some (some ["ants", "birds"]) := by decide +kernel
  obtain ⟨x, hx, hoffer⟩ := Option.map_eq_some_iff.mp hlooked
  obtain ⟨o, ho, hcards⟩ := Option.map_eq_some_iff.mp hoffer
  obtain ⟨hfree, hkeeps⟩ := (confirmDraw_settles Log.watchtower Log.tower).2 (by decide) hempty _
    (looked_dealings 3) "player" x o hx ho
  exact ⟨x, o, hx, ho, hcards, hfree, (hkeeps ["birds"] 0 (by decide) (by simp [hcards])).1⟩

end Engine

end MarsRules
