import MarsRules.Proofs.Reactions
import MarsRules.Proofs.Solvency
import MarsRules.Proofs.Successive

/-! Rewinding a log while some calls of the store are down. Each field is put back by the call it is
written with, the newest change first, and nothing but its own call stands in the way of a field. There is
one exception: a queue and the offer in front of it are one change, and where the call for the queue is
down the one for the offer is not made at all. -/

namespace MarsRules

theorem PlayerField.current_put_of_ne {f h : PlayerField} (hw : f.write ≠ h.write) (x : Player) :
    f.current (h.put x) = f.current x := by
  cases f <;> cases h <;> first | rfl | exact absurd rfl hw

def Cell.write : Cell → Write
  | .player _ w => w
  | .parameter p => .parameter p

namespace Entry

/-- The record is there, and in it the field is as the entry has it. -/
def Holds (g : GameId) (r : Records) : Entry → Prop
  | player id f => ∃ x, r.player? g id = some x ∧ f.current x = f
  | parameter p v => ∃ game, r.game? g = some game ∧ game.parameters.get p = v

variable {g : GameId} {r : Records} {d e : Entry}

theorem put_of_holds (h : e.Holds g r) : e.put g r = r := by
  cases e with
  | player id f =>
    obtain ⟨x, hx, hf⟩ := h
    refine (Records.changePlayer_congr fun y hy => ?_).trans Records.changePlayer_id
    obtain rfl : x = y := Option.some.inj (hx.symm.trans hy)
    rw [← hf]
    exact PlayerField.put_current f x
  | parameter p v =>
    obtain ⟨game, hgame, rfl⟩ := h
    refine Records.changeGame_of_game? fun y hy => ?_
    obtain rfl : game = y := Option.some.inj (hgame.symm.trans hy)
    cases p <;> rfl

theorem putAll_of_holds {es : List Entry} (h : ∀ e ∈ es, e.Holds g r) : r.putAll g es = r := by
  induction es with
  | nil => rfl
  | cons e rest ih =>
    obtain ⟨he, hrest⟩ := List.forall_mem_cons.mp h
    rw [Records.putAll_cons, put_of_holds he, ih hrest]

theorem holds_put_of_ne (h : e.cell ≠ d.cell) : e.Holds g (d.put g r) ↔ e.Holds g r := by
  cases d with
  | player q f' =>
    cases e with
    | player p f =>
      by_cases hpq : p = q
      · subst hpq
        have hw : f.write ≠ f'.write := fun hw => h (by simp [cell, hw])
        simp only [Holds, put, Records.player?_changePlayer (f := f'.put) (by simp),
          Option.map_eq_some_iff]
        constructor
        · rintro ⟨_, ⟨x, hx, rfl⟩, hf⟩
          exact ⟨x, hx, by rwa [PlayerField.current_put_of_ne hw] at hf⟩
        · rintro ⟨x, hx, hf⟩
          exact ⟨_, ⟨x, hx, rfl⟩, by rwa [PlayerField.current_put_of_ne hw]⟩
      · simp only [Holds, put, Records.player?_changePlayer_of_ne (f := f'.put) hpq (by simp)]
    | parameter p v => simp only [Holds, put, Records.game?_changePlayer]
  | parameter q v' =>
    cases e with
    | player p f => simp only [Holds, put, Records.player?_changeGame]
    | parameter p v =>
      have hpq : q ≠ p := fun hpq => h (by simp [cell, hpq])
      simp only [Holds, put, Records.game?_changeGame, Option.map_eq_some_iff]
      constructor
      · rintro ⟨_, ⟨game, hgame, rfl⟩, hv⟩
        exact ⟨game, hgame, by simpa [GameField.put, Parameters.get_set, hpq] using hv⟩
      · rintro ⟨game, hgame, hv⟩
        exact ⟨_, ⟨game, hgame, rfl⟩, by simpa [GameField.put, Parameters.get_set, hpq] using hv⟩

end Entry

namespace Cell

variable {g : GameId} {r r' r'' : Records} {k : Cell} {e : Entry} {es : List Entry}

/-- The field has the same value in both, or its record is in neither. -/
def Same (g : GameId) (k : Cell) (r r' : Records) : Prop :=
  ∀ e : Entry, e.cell = k → (e.Holds g r ↔ e.Holds g r')

theorem Same.refl : k.Same g r r := fun _ _ => Iff.rfl

theorem Same.trans (h : k.Same g r r') (h' : k.Same g r' r'') : k.Same g r r'' :=
  fun e he => (h e he).trans (h' e he)

theorem same_put (h : e.cell ≠ k) : k.Same g r (e.put g r) :=
  fun _ hd => (Entry.holds_put_of_ne (hd ▸ h.symm)).symm

theorem same_putAll (h : k ∉ es.map Entry.cell) : k.Same g r (r.putAll g es) := by
  induction es generalizing r with
  | nil => exact .refl
  | cons e rest ih =>
    simp only [List.map_cons, List.mem_cons, not_or] at h
    exact (same_put (Ne.symm h.1)).trans (ih h.2)

def There (g : GameId) (r : Records) : Cell → Prop
  | player id _ => (r.player? g id).isSome
  | parameter _ => (r.game? g).isSome

theorem there_of_holds (h : e.Holds g r) : e.cell.There g r := by
  cases e with
  | player id f =>
    obtain ⟨x, hx, -⟩ := h
    exact Option.isSome_of_eq_some hx
  | parameter p v =>
    obtain ⟨game, hgame, -⟩ := h
    exact Option.isSome_of_eq_some hgame

theorem there_put : k.There g (e.put g r) ↔ k.There g r := by
  cases e with
  | player q f =>
    cases k with
    | player p w =>
      by_cases hpq : p = q
      · subst hpq
        simp [There, Entry.put, Records.player?_changePlayer (f := f.put) (by simp)]
      · simp only [There, Entry.put, Records.player?_changePlayer_of_ne (f := f.put) hpq (by simp)]
    | parameter p => simp only [There, Entry.put, Records.game?_changePlayer]
  | parameter q v =>
    cases k with
    | player p w => simp only [There, Entry.put, Records.player?_changeGame]
    | parameter p => simp [There, Entry.put, Records.game?_changeGame]

theorem there_putAll : k.There g (r.putAll g es) ↔ k.There g r := by
  induction es generalizing r with
  | nil => rfl
  | cons e rest ih => exact ih.trans there_put

end Cell

/-! Calls that are down, or up, for as long as it takes. -/

/-- The next `n` calls get through, or none of them does. -/
def Outage.Steady (up : Bool) : Nat → List Outage → Prop
  | 0, _ => True
  | n + 1, os => (next os).1 = up ∧ Steady up n (next os).2

theorem Outage.Steady.of_succ {up : Bool} {n : Nat} {os : List Outage} (h : Steady up (n + 1) os) :
    Steady up n os := by
  induction n generalizing os with
  | zero => trivial
  | succ n ih => exact ⟨h.1, ih h.2⟩

theorem Outage.steady_nil (n : Nat) : Steady true n [] := by
  induction n with
  | zero => trivial
  | succ n ih => exact ⟨rfl, ih⟩

theorem Outage.steady_down (n : Nat) : Steady false n [{ times := n }] := by
  induction n with
  | zero => trivial
  | succ n ih => exact ⟨rfl, ih⟩

namespace Store

variable {g : GameId} {up : Write → Bool} {n : Nat} {s : Store}

/-- For the next `n` calls, a write gets through just if it is one of those that are up. -/
def Steady (up : Write → Bool) (n : Nat) (s : Store) : Prop :=
  ∀ w : Write, Outage.Steady (up w) n (s.outages w)

theorem steady_except {w : Write}
    (ho : s.outages = fun c => if c = Call.write w then [{ times := n }] else []) :
    s.Steady (· != w) n := by
  intro w'
  rw [ho]
  by_cases hw : w' = w
  · subst hw
    simpa using Outage.steady_down n
  · have hup : (w' != w) = true := bne_iff_ne.mpr hw
    simpa [hw, hup] using Outage.steady_nil n

theorem outages_call (s : Store) (c d : Call) :
    (s.call c).2.outages d = if d = c then (Outage.next (s.outages c)).2 else s.outages d := by
  unfold call
  split
  · next hnone =>
    split
    · next hd => rw [hd, hnone]; rfl
    · rfl
  · rfl

theorem Steady.call (h : s.Steady up (n + 1)) (w : Write) :
    s.serves w = up w ∧ (s.call w).2.Steady up n := by
  refine ⟨(serves_eq s w).trans (h w).1, fun w' => ?_⟩
  rw [outages_call]
  split
  · next hw =>
    obtain rfl : w' = w := Call.write.inj hw
    exact (h w').2
  · exact (h w').of_succ

def restore (g : GameId) : Entry → StoreSteps Unit
  | .player id f => updatePlayer g id f
  | .parameter p v => updateGame g (.parameter p v)

theorem restore_eq (g : GameId) (e : Entry) :
    ∃ k : StoreSteps Unit, restore g e = (perform e.cell.write >>= fun _ => k) ∧
      ∀ s : Store, e.cell.There g s.records →
        ∃ t, k s = (.ok (), t) ∧ t.records = e.put g s.records ∧ t.outages = s.outages := by
  cases e with
  | player id f =>
    refine ⟨_, rfl, fun s hthere => ?_⟩
    obtain ⟨x, hx⟩ := Option.isSome_iff_exists.mp hthere
    have hok : ∃ t, changePlayer g id f.put s = (.ok (), t) ∧ t.outages = s.outages :=
      ⟨_, Steps.bind_apply_ok (thePlayer_eq_ok.mpr ⟨hx, rfl⟩), rfl⟩
    obtain ⟨t, ht, ho⟩ := hok
    exact ⟨t, ht, (changePlayer_ok ht).2.1, ho⟩
  | parameter p v =>
    refine ⟨_, rfl, fun s hthere => ?_⟩
    obtain ⟨game, hgame⟩ := Option.isSome_iff_exists.mp hthere
    have hok : ∃ t, changeGame g (GameField.parameter p v).put s = (.ok (), t) ∧ t.outages = s.outages :=
      ⟨_, Steps.bind_apply_ok (theGame_eq_ok.mpr ⟨hgame, rfl⟩), rfl⟩
    obtain ⟨t, ht, ho⟩ := hok
    exact ⟨t, ht, (changeGame_ok ht).1, ho⟩

variable {e : Entry}

theorem restore_up (h : s.Steady up (n + 1)) (hthere : e.cell.There g s.records)
    (hup : up e.cell.write = true) :
    ∃ t, restore g e s = (.ok (), t) ∧ t.records = e.put g s.records ∧ t.Steady up n := by
  obtain ⟨k, hrestore, hk⟩ := restore_eq g e
  obtain ⟨hserves, hsteady⟩ := h.call e.cell.write
  have hrecords := (call_alike s e.cell.write).records
  obtain ⟨t, ht, hr, ho⟩ := hk (s.call e.cell.write).2 (hrecords ▸ hthere)
  refine ⟨t, ?_, hr.trans (congrArg (e.put g) hrecords), fun w => ho ▸ hsteady w⟩
  rw [hrestore, Steps.bind_apply_ok (perform_of_serves (hserves.trans hup)), ht]

theorem restore_down (h : s.Steady up (n + 1)) (hdown : up e.cell.write = false) :
    ∃ t, restore g e s = (.error unavailable, t) ∧ t.records = s.records ∧ t.Steady up n := by
  obtain ⟨k, hrestore, -⟩ := restore_eq g e
  obtain ⟨hserves, hsteady⟩ := h.call e.cell.write
  refine ⟨_, ?_, (call_alike s e.cell.write).records, hsteady⟩
  rw [hrestore, Steps.bind_apply_error (perform_of_not_serves (hserves.trans hdown))]

theorem Steady.of_le {m : Nat} (h : s.Steady up m) (hn : n ≤ m) : s.Steady up n := by
  induction hn with
  | refl => exact h
  | step hn ih => exact ih fun w => (h w).of_succ

/-- The calls that put entries back, one after the other as long as they get through. -/
def restoreAll (g : GameId) : List Entry → StoreSteps Unit
  | [] => pure ()
  | e :: rest => do
    restore g e
    restoreAll g rest

theorem restoreAll_singleton (g : GameId) (e : Entry) : restoreAll g [e] = restore g e :=
  bind_pure_unit

theorem restoreAll_steady {es : List Entry} (h : s.Steady up (es.length + n))
    (hthere : ∀ e ∈ es, e.cell.There g s.records) :
    ∃ t, restoreAll g es s =
        (if es.all fun e => up e.cell.write then .ok () else .error unavailable, t) ∧
      t.records = s.records.putAll g (es.takeWhile fun e => up e.cell.write) ∧ t.Steady up n := by
  induction es generalizing s with
  | nil => exact ⟨s, rfl, rfl, h.of_le (by simp)⟩
  | cons e rest ih =>
    obtain ⟨he, hrest⟩ := List.forall_mem_cons.mp hthere
    have h : s.Steady up (rest.length + n + 1) := h.of_le (by simp only [List.length_cons]; omega)
    cases hup : up e.cell.write with
    | false =>
      obtain ⟨t, ht, hr, hsteady⟩ := restore_down h hup
      refine ⟨t, ?_, by simpa [hup] using hr, hsteady.of_le (by omega)⟩
      rw [restoreAll, Steps.bind_apply_error ht]
      simp [hup]
    | true =>
      obtain ⟨t, ht, hr, hsteady⟩ := restore_up h he hup
      have hrest : ∀ d ∈ rest, d.cell.There g t.records := fun d hd =>
        hr ▸ Cell.there_put.mpr (hrest d hd)
      obtain ⟨u, hu, hr', hsteady'⟩ := ih hsteady hrest
      refine ⟨u, ?_, by simp [hr', hr, hup], hsteady'⟩
      rw [restoreAll, Steps.bind_apply_ok ht, hu]
      simp [hup]

end Store

namespace Change

variable {δ : Type} {g : GameId} {drop : Dropping δ} {up : Write → Bool}

/-- What is written of a change that is put back: its entries up to the first whose call is down. -/
def restored (up : Write → Bool) (c : Change) : List Entry := c.entries.takeWhile fun e => up e.cell.write

/-- What putting a change back answers. -/
def answer (up : Write → Bool) (drop : Dropping δ) (d : δ) : Change → Except Refusal Unit
  | subscribed card => (drop card d).1
  | c => if c.entries.all fun e => up e.cell.write then .ok () else .error Store.unavailable

/-- The subscriptions after a change is put back. -/
def dropped (drop : Dropping δ) (d : δ) : Change → δ
  | subscribed card => (drop card d).2
  | _ => d

theorem undo_eq {c : Change} (hc : ∀ card, c ≠ .subscribed card) (s : Store) (d : δ) :
    c.undo g drop s d = ((Store.restoreAll g c.entries s).1, (Store.restoreAll g c.entries s).2, d) := by
  cases c with
  | subscribed card => exact absurd rfl (hc card)
  | player id f => rw [entries, Store.restoreAll_singleton]; rfl
  | parameter p v => rw [entries, Store.restoreAll_singleton]; rfl
  | tiles id queue offer =>
    have hboth : Store.restoreAll g (entries (.tiles id queue offer)) =
        (Store.updatePlayer g id (.queue queue) >>= fun _ => Store.updatePlayer g id (.tileOffer offer)) := by
      rw [entries, Store.restoreAll, Store.restoreAll_singleton]
      rfl
    rw [hboth]
    rfl

theorem undo_steady {c : Change} {n : Nat} {s : Store} (drop : Dropping δ) (d : δ)
    (hs : s.Steady up (c.entries.length + n)) (hthere : ∀ e ∈ c.entries, e.cell.There g s.records) :
    ∃ t, c.undo g drop s d = (c.answer up drop d, t, c.dropped drop d) ∧
      t.records = s.records.putAll g (c.restored up) ∧ t.Steady up n := by
  by_cases hc : ∃ card, c = .subscribed card
  · obtain ⟨card, rfl⟩ := hc
    exact ⟨s, rfl, rfl, hs.of_le (by simp)⟩
  · obtain ⟨t, ht, hr, hsteady⟩ := Store.restoreAll_steady hs hthere
    refine ⟨t, ?_, hr, hsteady⟩
    rw [undo_eq (fun card h => hc ⟨card, h⟩), ht]
    cases c with
    | subscribed card => exact absurd ⟨card, rfl⟩ hc
    | _ => rfl

end Change

namespace UndoLog

variable {δ : Type} {g : GameId} {drop : Dropping δ} {up : Write → Bool} {cs : List Change}

/-- What is written when the changes are put back, newest first. -/
def restoredOf (up : Write → Bool) (cs : List Change) : List Entry := cs.flatMap (·.restored up)

/-- What putting each change back answers, newest first. -/
def answers (up : Write → Bool) (drop : Dropping δ) : List Change → δ → List (Except Refusal Unit)
  | [], _ => []
  | c :: rest, d => c.answer up drop d :: answers up drop rest (c.dropped drop d)

/-- The subscriptions after all logged ones have been dropped. -/
def droppedOf (drop : Dropping δ) (cs : List Change) (d : δ) : δ :=
  cs.foldl (fun d c => c.dropped drop d) d

theorem undoAll_steady {s : Store} (drop : Dropping δ) (d : δ) (hs : s.Steady up (entriesOf cs).length)
    (hthere : ∀ k ∈ cellsOf cs, k.There g s.records) :
    ∃ t, undoAll g drop cs s d =
        ((answers up drop cs d).forM id, t, droppedOf drop cs d) ∧
      t.records = s.records.putAll g (restoredOf up cs) := by
  induction cs generalizing s d with
  | nil => exact ⟨s, rfl, rfl⟩
  | cons c rest ih =>
    have hthere : (∀ e ∈ c.entries, e.cell.There g s.records) ∧
        ∀ k ∈ cellsOf rest, k.There g s.records := by
      simpa [cellsOf, or_imp, forall_and] using hthere
    rw [entriesOf_cons, List.length_append] at hs
    obtain ⟨t, ht, hr, hsteady⟩ := Change.undo_steady drop d hs hthere.1
    obtain ⟨u, hu, hr'⟩ := ih (c.dropped drop d) hsteady fun k hk =>
      hr ▸ Cell.there_putAll.mpr (hthere.2 k hk)
    refine ⟨u, ?_, ?_⟩
    · simp only [undoAll, ht, hu, answers, except_forM_cons, id_eq]
      cases c.answer up drop d <;> rfl
    · rw [hr', hr, ← Records.putAll_append]
      rfl

/-- A log while changes are made: what stands there is noted before it is overwritten, and nothing is
overwritten that has not been noted. An offer is noted with the queue behind it. -/
inductive Logged (g : GameId) (first : Records) : List Change → Records → Prop
  | start : Logged g first [] first
  | note {cs r} (c : Change) (h : Logged g first cs r) (now : ∀ e ∈ c.entries, e.Holds g r)
      (paired : ∀ id o, c ≠ .player id (.tileOffer o)) : Logged g first (c :: cs) r
  | write {cs r} (e : Entry) (h : Logged g first cs r) (noted : e.cell ∈ cellsOf cs) :
      Logged g first cs (e.put g r)

end UndoLog

/-- The call that puts the field back is made and gets through: it is up, and for an offer so is the call
for the queue, which is made first. -/
structure Cell.Restorable (up : Write → Bool) (k : Cell) : Prop where
  own : up k.write = true
  queue : k.write = .tileOffer → up .queue = true

theorem Cell.restorable_iff {up : Write → Bool} {k : Cell} :
    k.Restorable up ↔ up k.write = true ∧ (k.write = .tileOffer → up .queue = true) :=
  ⟨fun h => ⟨h.own, h.queue⟩, fun h => ⟨h.1, h.2⟩⟩

theorem Change.mem_restored {up : Write → Bool} {c : Change} {e : Entry}
    (hc : ∀ id o, c ≠ .player id (.tileOffer o)) (he : e ∈ c.entries) :
    e ∈ c.restored up ↔ e.cell.Restorable up := by
  rw [Cell.restorable_iff]
  cases c with
  | subscribed card => cases he
  | parameter p v =>
    obtain rfl := List.mem_singleton.mp he
    cases hup : up (.parameter p) <;> simp [restored, entries, Entry.cell, Cell.write, hup]
  | player id f =>
    obtain rfl := List.mem_singleton.mp he
    have hf : f.write ≠ .tileOffer := by
      cases f with
      | tileOffer o => exact absurd rfl (hc id o)
      | _ => exact Write.noConfusion
    cases hup : up f.write <;> simp [restored, entries, Entry.cell, Cell.write, hup, hf]
  | tiles id queue offer =>
    have he : e = .player id (.queue queue) ∨ e = .player id (.tileOffer offer) := by
      simpa [entries] using he
    rcases he with rfl | rfl
    · cases hup : up .queue <;>
        simp [restored, entries, Entry.cell, Cell.write, PlayerField.write, hup]
    · cases hup : up .queue <;> cases hup' : up .tileOffer <;>
        simp [restored, entries, Entry.cell, Cell.write, PlayerField.write, hup, hup']

namespace UndoLog

variable {g : GameId} {up : Write → Bool} {first r : Records} {cs : List Change} {k : Cell}

namespace Logged

theorem paired (h : Logged g first cs r) : ∀ c ∈ cs, ∀ id o, c ≠ .player id (.tileOffer o) := by
  induction h with
  | start => simp
  | note c h now hpaired ih => exact List.forall_mem_cons.mpr ⟨hpaired, ih⟩
  | write e h noted ih => exact ih

theorem there (h : Logged g first cs r) : ∀ k ∈ cellsOf cs, k.There g r := by
  induction h with
  | start => simp [cellsOf, entriesOf]
  | @note cs r c h now hpaired ih =>
    intro k hk
    have hk : (∃ e ∈ c.entries, e.cell = k) ∨ k ∈ cellsOf cs := by simpa [cellsOf] using hk
    rcases hk with ⟨e, he, rfl⟩ | hk
    · exact Cell.there_of_holds (now e he)
    · exact ih k hk
  | write e h noted ih => exact fun k hk => Cell.there_put.mpr (ih k hk)

theorem mem_restoredOf (h : Logged g first cs r) :
    k ∈ (restoredOf up cs).map Entry.cell ↔ k ∈ cellsOf cs ∧ k.Restorable up := by
  simp only [restoredOf, cellsOf, entriesOf, List.mem_map, List.mem_flatMap]
  constructor
  · rintro ⟨e, ⟨c, hc, he⟩, rfl⟩
    have hmem : e ∈ c.entries := List.takeWhile_subset _ he
    exact ⟨⟨e, ⟨c, hc, hmem⟩, rfl⟩, (Change.mem_restored (h.paired c hc) hmem).mp he⟩
  · rintro ⟨⟨e, ⟨c, hc, he⟩, rfl⟩, hk⟩
    exact ⟨e, ⟨c, hc, (Change.mem_restored (h.paired c hc) he).mpr hk⟩, rfl⟩

theorem restores (h : Logged g first cs r) (hk : k.Restorable up) :
    k.Same g first (r.putAll g (restoredOf up cs)) := by
  induction h with
  | start => exact .refl
  | @note cs r c h now hpaired ih =>
    have hnow : ∀ e ∈ c.restored up, e.Holds g r := fun e he => now e (List.takeWhile_subset _ he)
    show k.Same g first (r.putAll g (c.restored up ++ restoredOf up cs))
    rw [Records.putAll_append, Entry.putAll_of_holds hnow]
    exact ih
  | @write cs r e h noted ih =>
    by_cases he : e.cell ∈ (restoredOf up cs).map Entry.cell
    · rw [Records.putAll_put he]
      exact ih
    · -- the write cannot be restored, so it is of another field than `k`
      have hne : e.cell ≠ k := fun hek => he (h.mem_restoredOf.mpr ⟨noted, hek ▸ hk⟩)
      rw [← Records.put_putAll he]
      exact ih.trans (Cell.same_put hne)

theorem leaves (h : Logged g first cs r) (hk : ¬ k.Restorable up) :
    k.Same g r (r.putAll g (restoredOf up cs)) :=
  Cell.same_putAll fun hmem => hk (h.mem_restoredOf.mp hmem).2

theorem overwrite (h : Logged g first cs r) {id : PlayerId} {x : Player} (f : PlayerField)
    (hx : r.player? g id = some x) (hf : f.write ≠ .tileOffer) :
    Logged g first (.player id (f.current x) :: cs) ((Entry.player id f).put g r) := by
  have hnow : (Entry.player id (f.current x)).Holds g r := ⟨x, hx, by cases f <;> rfl⟩
  have hnote := h.note (.player id (f.current x)) (by simpa [Change.entries] using hnow) (by
    rintro _ o heq
    obtain ⟨rfl, ho⟩ := Change.player.inj heq
    exact hf (by rw [← PlayerField.write_current f x, ho]; rfl))
  exact hnote.write (.player id f) (by simp [cellsOf, Change.entries, Entry.cell])

end Logged

/-- Rewinding a log while some writes are down, whichever they are. It always ends, with the log empty and
every logged subscription dropped. A field that can be restored is as it was first, and any other as it
stood. The answer is fine if every change could be put back, and else that of the first that could not. -/
theorem rewind_restores {δ : Type} (log : UndoLog) (drop : Dropping δ) (d : δ) (up : Write → Bool)
    {first : Records} {s : Store} (hlog : Logged log.game first log.changes s.records)
    (hs : s.Steady up (entriesOf log.changes).length) :
    ∃ result t, log.rewind drop s d =
        (result, { log with changes := [] }, t, droppedOf drop log.changes d) ∧
      (∀ k : Cell, k.Restorable up → k.Same log.game first t.records) ∧
      (∀ k : Cell, ¬ k.Restorable up → k.Same log.game s.records t.records) ∧
      (result = .ok () ↔ ∀ a ∈ answers up drop log.changes d, a = .ok ()) ∧
      ∀ e, result = .error e ↔ ∃ before a after,
        answers up drop log.changes d = before ++ a :: after ∧ (∀ b ∈ before, b = .ok ()) ∧
          a = .error e := by
  obtain ⟨t, ht, hr⟩ := undoAll_steady drop d hs hlog.there
  refine ⟨_, t, ?_, fun k hk => hr ▸ hlog.restores hk, fun k hk => hr ▸ hlog.leaves hk,
    except_forM_eq_ok_iff, fun e => except_forM_eq_error⟩
  simp only [rewind, ht]
  rfl

/-! A player's resources, raised twice, the oxygen and a subscription, with the call for the oxygen down. -/

/-- The records before anything is logged. -/
def untouched : Records where
  games := [("g1", { id := "g1" })]
  rosters := [("g1", [.named "p1"])]

def touched : Store where
  games := [("g1", { id := "g1", parameters := { oxygen := 4 } })]
  rosters := [("g1", [{ Player.named "p1" with resources := { heat := 9 } }])]
  outages c := if c = Write.parameter .oxygen then [{ times := 4 }] else []

def touchedLog : UndoLog where
  game := "g1"
  changes := [.subscribed "C1", .parameter .oxygen 0, .player "p1" (.resources { heat := 3 }),
    .player "p1" (.resources {})]

theorem logged_touched : Logged "g1" untouched touchedLog.changes touched.records := by
  have hstart : Logged "g1" untouched [] untouched := .start
  have hfirst : Logged "g1" untouched _ _ := hstart.overwrite (.resources { heat := 3 })
    (show untouched.player? "g1" "p1" = some (.named "p1") from rfl) Write.noConfusion
  have hsecond : Logged "g1" untouched _ _ := hfirst.overwrite (.resources { heat := 9 })
    (show Records.player? _ _ "p1" = some { Player.named "p1" with resources := { heat := 3 } } from rfl)
    Write.noConfusion
  have hnoted := hsecond.note (.parameter .oxygen 0)
    (by simpa [Change.entries] using ⟨{ id := "g1" }, rfl, rfl⟩) fun _ _ => Change.noConfusion
  have hoxygen := hnoted.write (.parameter .oxygen 4) (by simp [cellsOf, Change.entries, Entry.cell])
  exact hoxygen.note (.subscribed "C1") (List.forall_mem_nil _) fun _ _ => Change.noConfusion

/-- The resources are as they were first, though the oxygen is not and is what the rewind fails with; the
card is dropped all the same. -/
theorem rewind_restores_touched :
    ∃ result t, touchedLog.rewind (fun card cards => (.ok (), cards.filter (· ≠ card))) touched ["C1", "C2"] =
        (result, { game := "g1" }, t, ["C2"]) ∧
      (Cell.player "p1" .resources).Same "g1" untouched t.records ∧
      (Cell.parameter .oxygen).Same "g1" touched.records t.records ∧
      result = .error Store.unavailable := by
  have hs : touched.Steady (· != .parameter .oxygen) 4 := Store.steady_except rfl
  obtain ⟨result, t, h, hrestored, hleft, -, herror⟩ :=
    rewind_restores touchedLog (fun card cards => (.ok (), cards.filter (· ≠ card))) ["C1", "C2"] _
      logged_touched (hs.of_le (by decide))
  refine ⟨result, t, h, hrestored _ ⟨rfl, nofun⟩, hleft _ (fun hk => nomatch hk.own), ?_⟩
  exact (herror _).mpr ⟨[.ok ()], _, _, rfl, by simp, rfl⟩

/-! A city is offered while a queue is put away, with nothing queued or offered before, and the call for
the queue is down. -/

def offering : Store where
  rosters := [("g1", [{ Player.named "p1" with tileOffer := some ⟨.city, [⟨0, 0, 0⟩], "colony"⟩ }])]
  outages c := if c = Write.queue then [{ times := 2 }] else []

def offeringLog : UndoLog where
  game := "g1"
  changes := [.tiles "p1" none none]

/-- The offer outlives the rewind though its own call is up: there was none when the change was logged. -/
theorem rewind_keeps_offer :
    Logged "g1" ⟨[], [("g1", [.named "p1"])]⟩ offeringLog.changes offering.records ∧
    offering.Steady (· != .queue) (entriesOf offeringLog.changes).length ∧
    (Write.tileOffer != .queue) = true ∧
    ¬ (Cell.player "p1" .tileOffer).Same "g1" ⟨[], [("g1", [.named "p1"])]⟩
      (offeringLog.rewind (fun _ d => (.ok (), d)) offering ()).2.2.1.records := by
  have hstart : Logged "g1" ⟨[], [("g1", [.named "p1"])]⟩ [] ⟨[], [("g1", [.named "p1"])]⟩ := .start
  have hnoted := hstart.note (.tiles "p1" none none)
    (by simpa [Change.entries] using ⟨⟨.named "p1", rfl, rfl⟩, ⟨.named "p1", rfl, rfl⟩⟩) nofun
  refine ⟨hnoted.write (.player "p1" (.tileOffer (some ⟨.city, [⟨0, 0, 0⟩], "colony"⟩))) ?_,
    Store.steady_except rfl, rfl, fun hsame => ?_⟩
  · simp [cellsOf, Change.entries, Entry.cell, PlayerField.write]
  · obtain ⟨x, hx, hoffer⟩ := (hsame (.player "p1" (.tileOffer none)) rfl).mp ⟨.named "p1", rfl, rfl⟩
    cases hx
    cases hoffer

end UndoLog

end MarsRules
