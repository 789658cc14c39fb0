import MarsRules.Proofs.Publishing
import MarsRules.Proofs.Rollback

/-! What operations write. `Wrote ok` says that every entry written is `ok` and that the
subscriptions are left alone; it survives rewinding, whether or not that gets through, as the old
values are noted under the same condition. -/

namespace MarsRules

open Steps (Keeps)

/-- Entries that are `ok` lead from the records of one store to those of the other. -/
def Store.Wrote (ok : Entry → Prop) (g : GameId) (s t : Store) : Prop :=
  ∃ es, t.records = s.records.putAll g es ∧ ∀ e ∈ es, ok e

structure World.Wrote (ok : Entry → Prop) (w v : World) : Prop where
  game : v.game = w.game
  bus : v.session.bus = w.session.bus
  subscribed : v.session.subscribed = w.session.subscribed
  store : Store.Wrote ok w.game w.store v.store

section Wrote

variable {ok : Entry → Prop}

namespace Store

variable {g : GameId}

instance : Std.Refl (Wrote ok g) := ⟨fun _ => ⟨[], rfl, by simp⟩⟩

theorem Wrote.trans {s t u : Store} (h : Wrote ok g s t) (h' : Wrote ok g t u) :
    Wrote ok g s u := by
  obtain ⟨es, hr, hes⟩ := h
  obtain ⟨es', hr', hes'⟩ := h'
  refine ⟨es ++ es', ?_, by simpa [or_imp, forall_and] using ⟨hes, hes'⟩⟩
  rw [hr', hr, Records.putAll_append]

instance : Trans (Wrote ok g) (Wrote ok g) (Wrote ok g) := ⟨Wrote.trans⟩

theorem Wrote.of_eq {s t : Store} (h : t.records = s.records) : Wrote ok g s t := ⟨[], h, by simp⟩

theorem Wrote.of_entry {s t : Store} {e : Entry} (h : t.records = e.put g s.records) (he : ok e) :
    Wrote ok g s t := ⟨[e], h, by simpa using he⟩

theorem updatePlayer_wrote {p : PlayerId} {f : PlayerField} (h : ok (.player p f)) :
    Keeps (Wrote ok g) (updatePlayer g p f) := by
  intro s
  rcases hu : updatePlayer g p f s with ⟨_ | _, t⟩
  · exact .of_eq (updatePlayer_error hu).records
  · exact .of_entry (updatePlayer_ok hu).2.1 h

theorem updateParameter_wrote {q : GlobalParameter} {n : Int} (h : ok (.parameter q n)) :
    Keeps (Wrote ok g) (updateGame g (.parameter q n)) := by
  intro s
  rcases hu : updateGame g (.parameter q n) s with ⟨_ | _, t⟩
  · exact .of_eq (updateGame_error hu).records
  · exact .of_entry (e := .parameter q n) (updateGame_ok hu).1 h

theorem addTiles_wrote {p : PlayerId} (h : ∀ q, ok (.player p (.queue q))) (source : String)
    (tiles : List TileKind) : Keeps (Wrote ok g) (addTiles g p source tiles) := by
  intro s
  rcases hu : addTiles g p source tiles s with ⟨_ | _, t⟩
  · exact .of_eq (addTiles_error hu).records
  · rcases addTiles_ok hu with ha | ⟨q, hr⟩
    · exact .of_eq ha.records
    · exact .of_entry hr (h q)

end Store

instance : Std.Refl (World.Wrote ok) := ⟨fun _ => ⟨rfl, rfl, rfl, Std.Refl.refl _⟩⟩

theorem World.Wrote.trans {w v u : World} (h : Wrote ok w v) (h' : Wrote ok v u) :
    Wrote ok w u :=
  ⟨h'.game.trans h.game, h'.bus.trans h.bus, h'.subscribed.trans h.subscribed,
    h.store.trans (h.game ▸ h'.store)⟩

instance : Trans (World.Wrote ok) (World.Wrote ok) (World.Wrote ok) := ⟨World.Wrote.trans⟩

theorem World.Wrote.mono {ok' : Entry → Prop} (hok : ∀ e, ok e → ok' e) {w v : World}
    (h : Wrote ok w v) : Wrote ok' w v :=
  ⟨h.game, h.bus, h.subscribed, h.store.imp fun _ hr => ⟨hr.1, fun e he => hok e (hr.2 e he)⟩⟩

theorem World.Alike.wrote {w v : World} (h : Alike w v) : Wrote ok w v :=
  ⟨congrArg Session.game h.session, congrArg Session.bus h.session,
    congrArg Session.subscribed h.session, .of_eq h.store.records⟩

namespace Engine

variable {α : Type}

theorem onStore_wrote {x : StoreSteps α} {w : World}
    (hx : Store.Wrote ok w.game w.store (x w.store).2) : World.Wrote ok w (onStore x w).2 := by
  unfold onStore
  rcases h : x w.store with ⟨_ | _, t⟩ <;> rw [h] at hx <;> exact ⟨rfl, rfl, rfl, hx⟩

theorem update_wrote {p : PlayerId} {f : PlayerField} (h : ok (.player p f)) :
    Keeps (World.Wrote ok) (update p f) := fun w => onStore_wrote (Store.updatePlayer_wrote h w.store)

theorem updateParameter_wrote {q : GlobalParameter} {n : Int} (h : ok (.parameter q n)) :
    Keeps (World.Wrote ok) (updateGame (.parameter q n)) :=
  fun w => onStore_wrote (Store.updateParameter_wrote h w.store)

theorem addTiles_wrote {p : PlayerId} (h : ∀ q, ok (.player p (.queue q))) (source : String)
    (tiles : List TileKind) (w : World) :
    World.Wrote ok w (onStore (Store.addTiles w.game p source tiles) w).2 :=
  onStore_wrote (Store.addTiles_wrote h source tiles w.store)

theorem drawCards_wrote (g : GameId) (n : Nat) :
    Keeps (World.Wrote ok) (onStore (Store.drawCards g n)) :=
  fun w => onStore_wrote (.of_eq (Store.drawCards_records g n w.store))

end Engine

/-- What this change would put back is `ok`, and it is no subscription. -/
def Change.Within (ok : Entry → Prop) : Change → Prop
  | .subscribed _ => False
  | c => ∀ e ∈ c.entries, ok e

/-- Changes were noted on top of those noted before, and all that they would put back is `ok`. -/
def NotedOn (ok : Entry → Prop) (noted noted' : List Change) : Prop :=
  ∃ cs, noted' = cs ++ noted ∧ ∀ c ∈ cs, c.Within ok

instance : Std.Refl (NotedOn ok) := ⟨fun _ => ⟨[], rfl, by simp⟩⟩

theorem NotedOn.trans {l l' l'' : List Change} (h : NotedOn ok l l') (h' : NotedOn ok l' l'') :
    NotedOn ok l l'' := by
  obtain ⟨cs, rfl, hcs⟩ := h
  obtain ⟨ds, rfl, hds⟩ := h'
  exact ⟨ds ++ cs, (List.append_assoc ..).symm, by simpa [or_imp, forall_and] using ⟨hds, hcs⟩⟩

/-- What the steps of a transaction write and note. -/
structure Recorded (ok : Entry → Prop) (s t : World × List Change) : Prop where
  wrote : s.1.Wrote ok t.1
  noted : NotedOn ok s.2 t.2

instance : Std.Refl (Recorded ok) := ⟨fun _ => ⟨Std.Refl.refl _, Std.Refl.refl _⟩⟩

theorem Recorded.trans {s t u : World × List Change} (h : Recorded ok s t)
    (h' : Recorded ok t u) : Recorded ok s u :=
  ⟨h.wrote.trans h'.wrote, h.noted.trans h'.noted⟩

instance : Trans (Recorded ok) (Recorded ok) (Recorded ok) := ⟨Recorded.trans⟩

theorem Recorded.mono {ok' : Entry → Prop} (hok : ∀ e, ok e → ok' e) {s t : World × List Change}
    (h : Recorded ok s t) : Recorded ok' s t := by
  obtain ⟨cs, ht, hcs⟩ := h.noted
  refine ⟨h.wrote.mono hok, cs, ht, fun c hc => ?_⟩
  have hw := hcs c hc
  cases c with
  | subscribed => exact hw
  | player | tiles | parameter => exact fun e he => hok e (hw e he)

namespace Noted

variable {α : Type}

theorem ofEngine_recorded {x : Engine α} (hx : Keeps (World.Wrote ok) x) :
    Keeps (Recorded ok) (ofEngine x) := fun (w, _) => ⟨hx w, Std.Refl.refl _⟩

theorem alike_recorded {x : Engine α} (hx : Keeps World.Alike x) :
    Keeps (Recorded ok) (ofEngine x) := ofEngine_recorded fun w => (hx w).wrote

theorem note_recorded {c : Change} (hc : c.Within ok) : Keeps (Recorded ok) (note c) :=
  fun _ => ⟨Std.Refl.refl _, [c], rfl, by simpa using hc⟩

theorem overwrite_recorded {player : Player} {f : PlayerField}
    (h : ∀ f', f'.write = f.write → ok (.player player.id f')) :
    Keeps (Recorded ok) (overwrite player f) := by
  have hn : (Change.player player.id (f.current player)).Within ok := fun e he => by
    obtain rfl := List.mem_singleton.mp he
    exact h _ (by simp)
  exact (note_recorded hn).bind fun _ => ofEngine_recorded (Engine.update_wrote (h f rfl))

end Noted

/-- Putting back writes only what was noted, even where it fails, and drops no subscriptions. -/
theorem Change.undo_wrote (g : GameId) (drop : Dropping Session) {c : Change} (hc : c.Within ok)
    (s : Store) (d : Session) :
    s.Wrote ok g (c.undo g drop s d).2.1 ∧ (c.undo g drop s d).2.2 = d := by
  cases c with
  | player p f => exact ⟨Store.updatePlayer_wrote (hc _ (by simp [entries])) s, rfl⟩
  | tiles p queue offer =>
    have hq := Store.updatePlayer_wrote (g := g) (hc (.player p (.queue queue)) (by simp [entries]))
    have ho := Store.updatePlayer_wrote (g := g)
      (hc (.player p (.tileOffer offer)) (by simp [entries]))
    exact ⟨hq.bind (fun _ => ho) s, rfl⟩
  | subscribed => exact hc.elim
  | parameter q n => exact ⟨Store.updateParameter_wrote (hc _ (by simp [entries])) s, rfl⟩

theorem UndoLog.undoAll_wrote (g : GameId) (drop : Dropping Session) {cs : List Change}
    (hc : ∀ c ∈ cs, c.Within ok) (s : Store) (d : Session) :
    s.Wrote ok g (undoAll g drop cs s d).2.1 ∧ (undoAll g drop cs s d).2.2 = d := by
  induction cs generalizing s d with
  | nil => exact ⟨Std.Refl.refl s, rfl⟩
  | cons c rest ih =>
    obtain ⟨hs, hd⟩ := Change.undo_wrote g drop (hc c (List.mem_cons_self ..)) s d
    obtain ⟨hs', hd'⟩ := ih (fun c h => hc c (List.mem_cons_of_mem _ h))
      (c.undo g drop s d).2.1 (c.undo g drop s d).2.2
    exact ⟨hs.trans hs', hd'.trans hd⟩

theorem transact_ok {α : Type} {drop : Dropping Session} {steps : Noted α} {w v : World} {a : α}
    (h : transact drop steps w = (.ok a, v)) : ∃ noted, steps (w, []) = (.ok a, v, noted) := by
  unfold transact at h
  rcases hs : steps (w, []) with ⟨stop | b, u, noted⟩
  · cases stop <;> simp [hs] at h
  · simp only [hs, Prod.mk.injEq, Except.ok.injEq] at h
    exact ⟨noted, by rw [h.1, h.2]⟩

/-- What writing gives and its steps give, a transaction gives, also when it is put back. -/
theorem transact_related {α : Type} {R : World → World → Prop} [Trans R R R] {drop : Dropping Session}
    {steps : Noted α} {w : World} (hok : ∀ u v, World.Wrote ok u v → R u v)
    (hw : R w (steps (w, [])).2.1) (hn : NotedOn ok [] (steps (w, [])).2.2) :
    R w (transact drop steps w).2 := by
  unfold transact
  rcases hs : steps (w, []) with ⟨stop | a, u, noted⟩ <;> rw [hs] at hw hn
  · cases stop with
    | refused e restored =>
      obtain ⟨cs, hcs, hn⟩ := hn
      obtain rfl : noted = cs := by simpa using hcs
      obtain ⟨hu, hd⟩ := UndoLog.undoAll_wrote u.game drop hn u.store u.session
      exact Trans.trans hw (hok u _ ⟨congrArg Session.game hd, congrArg Session.bus hd,
        congrArg Session.subscribed hd, hu⟩)
    | brokenRange | tooDeep => exact hw
  · exact hw

theorem transact_wrote {α : Type} {drop : Dropping Session} {steps : Noted α} {w : World}
    (h : Recorded ok (w, []) (steps (w, [])).2) : World.Wrote ok w (transact drop steps w).2 :=
  transact_related (fun _ _ hu => hu) h.wrote h.noted

end Wrote

end MarsRules
