import MarsRules.Proofs.Outages

/-! Writes of a player's record that are made in turn, with nothing to put them back. They end at the
first that fails, so that what is left is a prefix of them (`Engine.updateAll_written`); which one it is
can be told beforehand, as each call has outages of its own. -/

namespace MarsRules

namespace Store

/-- The next call of this kind gets through. -/
def serves (s : Store) (c : Call) : Bool := (s.call c).1

/-- No outages have changed but those of these calls. -/
def SpendsOnly (cs : List Call) (s t : Store) : Prop := ∀ c ∉ cs, t.outages c = s.outages c

variable {cs ds : List Call} {c : Call} {s t u : Store}

theorem serves_eq (s : Store) (c : Call) : s.serves c = (Outage.next (s.outages c)).1 := by
  unfold serves call
  split
  · next h => rw [h]; rfl
  · rfl

instance : Std.Refl (SpendsOnly cs) := ⟨fun _ _ _ => rfl⟩

instance : Trans (SpendsOnly cs) (SpendsOnly cs) (SpendsOnly cs) :=
  ⟨fun h h' c hc => (h' c hc).trans (h c hc)⟩

namespace SpendsOnly

theorem symm (h : SpendsOnly cs s t) : SpendsOnly cs t s := fun c hc => (h c hc).symm

theorem mono (h : SpendsOnly cs s t) (hsub : cs ⊆ ds) : SpendsOnly ds s t :=
  fun c hc => h c fun hmem => hc (hsub hmem)

theorem append (h : SpendsOnly cs s t) (h' : SpendsOnly ds t u) : SpendsOnly (cs ++ ds) s u :=
  fun c hc => (h' c fun hmem => hc (List.mem_append_right _ hmem)).trans
    (h c fun hmem => hc (List.mem_append_left _ hmem))

theorem serves (h : SpendsOnly cs s t) (hc : c ∉ cs) : t.serves c = s.serves c := by
  rw [serves_eq, serves_eq, h c hc]

end SpendsOnly

theorem perform_eq (c : Call) (s : Store) :
    perform c s = (if s.serves c then .ok () else .error unavailable, (s.call c).2) := by
  unfold perform serves
  rcases s.call c with ⟨_ | _, t⟩ <;> rfl

theorem perform_of_serves {c : Call} {s : Store} (h : s.serves c = true) :
    perform c s = (.ok (), (s.call c).2) := by
  rw [perform_eq, if_pos h]

theorem perform_of_not_serves {c : Call} {s : Store} (h : s.serves c = false) :
    perform c s = (.error unavailable, (s.call c).2) := by
  rw [perform_eq, h]
  rfl

theorem call_spendsOnly (s : Store) (c : Call) : SpendsOnly [c] s (s.call c).2 := by
  intro d hd
  unfold call
  split
  · rfl
  · exact if_neg (by simpa using hd)

end Store

/-- The same of the worlds that hold the stores. -/
abbrev World.SpendsOnly (cs : List Call) (w v : World) : Prop := w.store.SpendsOnly cs v.store

/-- The record with these fields written, the first in the list first. -/
def Player.putAll (x : Player) (fs : List PlayerField) : Player := fs.foldl (fun x f => f.put x) x

@[simp] theorem Player.putAll_id (x : Player) (fs : List PlayerField) : (x.putAll fs).id = x.id := by
  induction fs generalizing x with
  | nil => rfl
  | cons f rest ih => exact (ih _).trans (f.id_put x)

/-- The writes up to the first that will not get through. -/
def Store.reached (s : Store) (fs : List PlayerField) : List PlayerField :=
  fs.takeWhile fun f => s.serves f.write

@[simp] theorem Store.reached_nil (s : Store) : s.reached [] = [] := rfl

theorem Store.reached_cons (s : Store) (f : PlayerField) (fs : List PlayerField) :
    s.reached (f :: fs) = if s.serves f.write then f :: s.reached fs else [] := by
  simp [reached, List.takeWhile_cons]

theorem Store.reached_cons_eq_self {s : Store} {f : PlayerField} {fs : List PlayerField} :
    s.reached (f :: fs) = f :: fs ↔ s.serves f.write = true ∧ s.reached fs = fs := by
  rw [reached_cons]
  split <;> simp_all

/-- Of two writes that do not both get through, the first alone does or neither. -/
theorem Store.reached_pair {s : Store} {f f' : PlayerField} (h : s.reached [f, f'] ≠ [f, f']) :
    s.reached [f, f'] = if s.serves f.write then [f] else [] := by
  rw [ne_eq, reached_cons_eq_self, reached_cons_eq_self, not_and] at h
  simp only [reached_cons, reached_nil]
  split
  · next hserves => rw [if_neg fun hmore => h hserves ⟨hmore, rfl⟩]
  · rfl

theorem Store.reached_congr {s t : Store} {fs : List PlayerField}
    (h : ∀ f ∈ fs, t.serves f.write = s.serves f.write) : t.reached fs = s.reached fs := by
  induction fs with
  | nil => rfl
  | cons f rest ih =>
    obtain ⟨hf, hrest⟩ := List.forall_mem_cons.mp h
    rw [reached_cons, reached_cons, hf, ih hrest]

/-- These fields of a player's record are written, and no other record or deck has changed. -/
abbrev World.Written (p : PlayerId) (fs : List PlayerField) (w v : World) : Prop :=
  w.Becomes (w.records.changePlayer w.game p (·.putAll fs)) v

namespace World

variable {p : PlayerId} {f : PlayerField} {fs : List PlayerField} {w v u : World} {x : Player}

theorem Alike.written (h : Alike w v) (p : PlayerId) : Written p [] w v where
  session := h.session
  decks := h.store.decks
  records := h.store.records.trans Records.changePlayer_id.symm

theorem Written.cons (h : Written p [f] w v) (h' : Written p fs v u) : Written p (f :: fs) w u where
  session := h'.session.trans h.session
  decks := h'.decks.trans h.decks
  records := by
    rw [h'.records, h.records, h.game,
      Records.changePlayer_changePlayer fun x hx => (x.putAll_id [f]).trans hx]
    rfl

theorem Written.after (h : Alike w v) (h' : Written p fs v u) : Written p fs w u where
  session := h'.session.trans h.session
  decks := h'.decks.trans h.store.decks
  records := by
    rw [h'.records, show v.records = w.records from h.store.records,
      show v.game = w.game from congrArg Session.game h.session]

theorem Written.player? (h : Written p fs w v) (hp : w.player? p = some x) :
    v.player? p = some (x.putAll fs) := by
  unfold World.player?
  rw [h.records, h.game, Records.player?_changePlayer fun x hx => (x.putAll_id fs).trans hx]
  exact congrArg (Option.map _) hp

end World

namespace Engine

open World (Written SpendsOnly)

variable {α : Type} {g : GameId} {p : PlayerId} {f : PlayerField} {fs : List PlayerField} {w v : World}
  {x : Player}

/-- Steps on the store that begin with a call which gets through. -/
theorem onStore_of_serves {c : Call} (k : Unit → StoreSteps α) (hs : w.store.serves c = true) :
    ∃ u, onStore (Store.perform c >>= k) w = onStore (k ()) u ∧ World.Alike w u ∧ SpendsOnly [c] w u := by
  refine ⟨{ w with store := (w.store.call c).2 }, ?_, ⟨rfl, Store.call_alike _ c⟩,
    Store.call_spendsOnly _ c⟩
  unfold onStore
  rw [Steps.bind_apply_ok (Store.perform_of_serves hs)]

theorem onStore_of_not_serves {c : Call} (k : Unit → StoreSteps α) (hs : w.store.serves c = false) :
    ∃ u, onStore (Store.perform c >>= k) w = (.error (.refused Store.unavailable true), u) ∧
      World.Alike w u ∧ SpendsOnly [c] w u := by
  refine ⟨{ w with store := (w.store.call c).2 }, ?_, ⟨rfl, Store.call_alike _ c⟩,
    Store.call_spendsOnly _ c⟩
  unfold onStore
  rw [Steps.bind_apply_error (Store.perform_of_not_serves hs)]

theorem serves_of_onStore {c : Call} {k : Unit → StoreSteps α} {a : α}
    (h : onStore (Store.perform c >>= k) w = (.ok a, v)) : w.store.serves c = true := by
  cases hs : w.store.serves c with
  | true => rfl
  | false =>
    obtain ⟨u, hu, -⟩ := onStore_of_not_serves k hs
    cases hu.symm.trans h

theorem serves_of_readPlayer (h : readPlayer p w = (.ok x, v)) :
    w.store.serves (Read.player : Call) = true :=
  serves_of_onStore (show onStore (Store.readPlayer w.game p) w = _ from h)

theorem readPlayer_of_serves (hs : w.store.serves (Read.player : Call) = true)
    (hp : w.player? p = some x) : ∃ u, readPlayer p w = (.ok x, u) ∧ World.Alike w u ∧
      SpendsOnly [(Read.player : Call)] w u := by
  obtain ⟨u, hu, ha, hs⟩ := onStore_of_serves (fun _ => Store.thePlayer w.game p) hs
  refine ⟨u, (show _ = onStore (Store.readPlayer w.game p) w from rfl).trans (hu.trans ?_), ha, hs⟩
  unfold onStore
  rw [Store.thePlayer_eq_ok.mpr ⟨(congrArg (·.player? w.game p) ha.store.records).trans hp, rfl⟩]

theorem update_of_serves (hs : w.store.serves f.write = true) (hp : w.player? p = some x) :
    ∃ u, update p f w = (.ok (), u) ∧ Written p [f] w u ∧ SpendsOnly [(f.write : Call)] w u := by
  obtain ⟨u, hu, ha, hs⟩ := onStore_of_serves (fun _ => Store.changePlayer w.game p f.put) hs
  have hthere : Store.thePlayer w.game p u.store = (.ok x, u.store) :=
    Store.thePlayer_eq_ok.mpr ⟨(congrArg (·.player? w.game p) ha.store.records).trans hp, rfl⟩
  have hok : ∃ t, Store.changePlayer w.game p f.put u.store = (.ok (), t) ∧ t.outages = u.store.outages :=
    ⟨_, Steps.bind_apply_ok hthere, rfl⟩
  obtain ⟨t, ht, ho⟩ := hok
  obtain ⟨-, hr, hd⟩ := Store.changePlayer_ok ht
  refine ⟨{ u with store := t }, ?_, ⟨ha.session, hd.trans ha.store.decks, ?_⟩, fun c hc => ?_⟩
  · refine (show _ = onStore (Store.updatePlayer w.game p f) w from rfl).trans (hu.trans ?_)
    exact onStore_eq_ok.mpr ⟨t, ht, rfl⟩
  · exact hr.trans (congrArg (·.changePlayer w.game p f.put) ha.store.records)
  · exact (congrFun ho c).trans (hs c hc)

theorem update_of_not_serves (p : PlayerId) (hs : w.store.serves f.write = false) :
    ∃ u, update p f w = (.error (.refused Store.unavailable true), u) ∧ World.Alike w u := by
  obtain ⟨u, hu, ha, -⟩ := onStore_of_not_serves (fun _ => Store.changePlayer w.game p f.put) hs
  exact ⟨u, hu, ha⟩

theorem not_serves_of_update {f : PlayerField} {stop : Stop} (h : update p f w = (.error stop, v))
    (hp : w.player? p = some x) : w.store.serves f.write = false := by
  cases hs : w.store.serves f.write with
  | false => rfl
  | true =>
    obtain ⟨u, hu, -⟩ := update_of_serves hs hp
    cases hu.symm.trans h

/-- Writes these fields of a record in turn. -/
def updateAll (p : PlayerId) (fs : List PlayerField) : Engine Unit := fs.forM (update p)

/-- What gets through is a prefix of the writes, and nothing of it is put back. -/
theorem updateAll_written (hd : (fs.map PlayerField.write).Nodup) (hp : w.player? p = some x) :
    ∃ u, updateAll p fs w =
        (if w.store.reached fs = fs then .ok () else .error (.refused Store.unavailable true), u) ∧
      Written p (w.store.reached fs) w u := by
  induction fs generalizing w x with
  | nil => exact ⟨w, rfl, World.Alike.written (Std.Refl.refl w) p⟩
  | cons f rest ih =>
    obtain ⟨hf, hrest⟩ := List.nodup_cons.mp hd
    cases hs : w.store.serves f.write with
    | false =>
      obtain ⟨u, hu, ha⟩ := update_of_not_serves p hs
      have hnone : w.store.reached (f :: rest) = [] := by simp [Store.reached_cons, hs]
      exact ⟨u, by rw [hnone]; exact Steps.bind_apply_error hu, hnone ▸ ha.written p⟩
    | true =>
      obtain ⟨u, hu, hwritten, hspent⟩ := update_of_serves hs hp
      -- the later writes have outages of their own
      have hsame : u.store.reached rest = w.store.reached rest :=
        Store.reached_congr fun f' hf' => hspent.serves fun hmem => hf (by
          rw [← Call.write.inj (List.mem_singleton.mp hmem)]
          exact List.mem_map_of_mem hf')
      have hmore : w.store.reached (f :: rest) = f :: w.store.reached rest := by simp [Store.reached_cons, hs]
      obtain ⟨v, hv, hwritten'⟩ := ih hrest (hwritten.player? hp)
      rw [hsame] at hv hwritten'
      refine ⟨v, ?_, hmore ▸ hwritten.cons hwritten'⟩
      rw [hmore]
      refine (Steps.bind_apply_ok hu).trans (hv.trans ?_)
      simp

end Engine

end MarsRules
