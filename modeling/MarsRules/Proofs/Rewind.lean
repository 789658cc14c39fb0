import MarsRules.Proofs.Calls

/-! Putting a transaction back. `Covered` says of the steps of a transaction that what they noted,
written over what they left, gives what was there before; `transact_reverts` turns that into the
statement about a transaction that is refused. -/

namespace MarsRules

open Steps (Keeps KeepsFrom)

def entriesOf (cs : List Change) : List Entry := cs.flatMap Change.entries

def cellsOf (cs : List Change) : List Cell := (entriesOf cs).map Entry.cell

@[simp] theorem entriesOf_cons (c : Change) (cs : List Change) :
    entriesOf (c :: cs) = c.entries ++ entriesOf cs := rfl

theorem cellsOf_suffix {cs ds : List Change} (h : cs <:+ ds) : cellsOf cs ⊆ cellsOf ds := by
  obtain ⟨new, rfl⟩ := h
  intro c hc
  simp only [cellsOf, entriesOf, List.flatMap_append, List.map_append, List.mem_append] at hc ⊢
  exact .inr hc

section Undo

variable {δ : Type} {g : GameId} {drop : Dropping δ} {s t : Store} {d d' : δ}

theorem Change.undo_ok {c : Change} (h : c.undo g drop s d = (.ok (), t, d')) :
    t.records = s.records.putAll g c.entries := by
  cases c with
  | player id previous =>
    obtain ⟨h₁, h₂⟩ := Prod.ext_iff.mp h
    have ht : Store.updatePlayer g id previous s = (.ok (), t) :=
      Prod.ext h₁ (congrArg Prod.fst h₂)
    exact (Store.updatePlayer_ok ht).2.1
  | tiles id queue offer =>
    obtain ⟨h₁, h₂⟩ := Prod.ext_iff.mp h
    have ht : (Store.updatePlayer g id (.queue queue) >>= fun _ =>
        Store.updatePlayer g id (.tileOffer offer)) s = (.ok (), t) :=
      Prod.ext h₁ (congrArg Prod.fst h₂)
    obtain ⟨_, u, hu, hut⟩ := Steps.bind_eq_ok.mp ht
    rw [(Store.updatePlayer_ok hut).2.1, (Store.updatePlayer_ok hu).2.1]
    rfl
  | subscribed card =>
    obtain ⟨-, h₂⟩ := Prod.ext_iff.mp h
    exact congrArg Store.records (congrArg Prod.fst h₂).symm
  | parameter p previous =>
    obtain ⟨h₁, h₂⟩ := Prod.ext_iff.mp h
    have ht : Store.updateGame g (.parameter p previous) s = (.ok (), t) :=
      Prod.ext h₁ (congrArg Prod.fst h₂)
    exact (Store.updateGame_ok ht).1

theorem UndoLog.firstFailure_eq_ok {r r' : Except Refusal Unit} :
    firstFailure r r' = .ok () ↔ r = .ok () ∧ r' = .ok () := by
  cases r <;> simp [firstFailure]

/-- Where every write of it succeeds, putting back writes the old entries, newest first. -/
theorem UndoLog.undoAll_ok {cs : List Change} (h : undoAll g drop cs s d = (.ok (), t, d')) :
    t.records = s.records.putAll g (entriesOf cs) := by
  induction cs generalizing s d with
  | nil =>
    obtain ⟨-, h₂⟩ := Prod.ext_iff.mp h
    exact congrArg Store.records (congrArg Prod.fst h₂).symm
  | cons c rest ih =>
    simp only [undoAll] at h
    rcases hc : c.undo g drop s d with ⟨r, u, d₁⟩
    rcases hr : undoAll g drop rest u d₁ with ⟨r', v, d₂⟩
    simp only [hc, hr, Prod.mk.injEq] at h
    obtain ⟨hok, rfl, rfl⟩ := h
    obtain ⟨rfl, rfl⟩ := firstFailure_eq_ok.mp hok
    rw [entriesOf_cons, Records.putAll_append, ← Change.undo_ok hc]
    exact ih hr

end Undo

/-- The two worlds differ at most in these cells: entries for all of them hide the difference. -/
structure World.Masked (cells : List Cell) (w v : World) : Prop where
  game : v.game = w.game
  records : ∀ es : List Entry, cells ⊆ es.map Entry.cell →
    v.records.putAll w.game es = w.records.putAll w.game es

instance (cells : List Cell) : Std.Refl (World.Masked cells) := ⟨fun _ => ⟨rfl, fun _ _ => rfl⟩⟩

instance (cells : List Cell) :
    Trans (World.Masked cells) (World.Masked cells) (World.Masked cells) :=
  ⟨fun h h' => ⟨h'.game.trans h.game, fun es hes =>
    (h.game ▸ h'.records es hes).trans (h.records es hes)⟩⟩

theorem World.Alike.masked {w v : World} (h : Alike w v) (cells : List Cell) :
    Masked cells w v :=
  ⟨congrArg Session.game h.session, fun es _ => by
    show (v.store.records).putAll _ es = _
    rw [h.store.records]; rfl⟩

theorem Engine.update_masked (p : PlayerId) (f : PlayerField) :
    Keeps (World.Masked [.player p f.write]) (Engine.update p f) := by
  intro w
  rcases h : Engine.update p f w with ⟨stop | _, v⟩
  · exact (Engine.update_error h).masked _
  · obtain ⟨-, hs, hr, -⟩ := Engine.update_ok h
    refine ⟨congrArg Session.game hs, fun es hes => ?_⟩
    show v.records.putAll w.game es = _
    rw [hr]
    exact Records.putAll_put (d := .player p f) (hes (List.mem_singleton_self _)) _

theorem Engine.updateParameter_masked (p : GlobalParameter) (n : Int) :
    Keeps (World.Masked [.parameter p]) (Engine.updateGame (.parameter p n)) := by
  intro w
  rcases h : Engine.updateGame (.parameter p n) w with ⟨stop | _, v⟩
  · exact (Engine.updateGame_error h).masked _
  · obtain ⟨hs, hr, -⟩ := Engine.updateGame_ok h
    refine ⟨congrArg Session.game hs, fun es hes => ?_⟩
    show v.records.putAll w.game es = _
    rw [hr]
    exact Records.putAll_put (d := .parameter p n) (hes (List.mem_singleton_self _)) _

/-- What putting everything back that is noted would give. -/
def base (s : World × List Change) : Records := s.1.records.putAll s.1.game (entriesOf s.2)

/-- The steps leave the same to be put back. They may overwrite the `known` cells without noting
them, as those are noted already. -/
structure Covered (known : List Cell) (s t : World × List Change) : Prop where
  game : t.1.game = s.1.game
  older : s.2 <:+ t.2
  base : known ⊆ cellsOf s.2 → base t = base s

instance (known : List Cell) : Std.Refl (Covered known) :=
  ⟨fun _ => ⟨rfl, List.suffix_rfl, fun _ => rfl⟩⟩

theorem Covered.trans {known : List Cell} {s t u : World × List Change} (h : Covered known s t)
    (h' : Covered known t u) : Covered known s u :=
  ⟨h'.game.trans h.game, h.older.trans h'.older, fun hk =>
    (h'.base (List.Subset.trans hk (cellsOf_suffix h.older))).trans (h.base hk)⟩

instance (known : List Cell) : Trans (Covered known) (Covered known) (Covered known) :=
  ⟨Covered.trans⟩

/-- Noting this entry makes no difference: either an older note overwrites it, or it is what will be
put back anyway. -/
def Harmless (e : Entry) (s : World × List Change) : Prop :=
  e.cell ∈ cellsOf s.2 ∨ e.put s.1.game (base s) = base s

theorem Harmless.covered {e : Entry} {s t : World × List Change} (h : Covered [] s t)
    (he : Harmless e s) : Harmless e t := by
  rcases he with he | he
  · exact .inl (cellsOf_suffix h.older he)
  · refine .inr ?_
    rwa [h.base (List.nil_subset _), h.game]

/-- What stands there can be noted. -/
theorem Harmless.of_current {e : Entry} {s : World × List Change}
    (h : e.put s.1.game s.1.records = s.1.records) : Harmless e s := by
  by_cases he : e.cell ∈ cellsOf s.2
  · exact .inl he
  · refine .inr ?_
    unfold base
    rw [Records.put_putAll he, h]

/-- The record of a player as it was read: every field of it can be noted. -/
def Snapshot (player : Player) (s : World × List Change) : Prop :=
  ∀ f : PlayerField, Harmless (.player player.id (f.current player)) s

theorem Snapshot.covered {player : Player} (s t : World × List Change) (h : Covered [] s t)
    (hs : Snapshot player s) : Snapshot player t := fun f => (hs f).covered h

theorem World.player?_id {w : World} {p : PlayerId} {player : Player}
    (h : w.player? p = some player) : player.id = p := by simpa using List.find?_some h

theorem Snapshot.of_player? {w : World} {p : PlayerId} {player : Player}
    (h : w.player? p = some player) (noted : List Change) : Snapshot player (w, noted) := by
  intro f
  rw [World.player?_id h]
  refine Harmless.of_current ((Records.changePlayer_congr fun x hx => ?_).trans
    Records.changePlayer_id)
  obtain rfl : player = x := Option.some.inj (h.symm.trans hx)
  exact PlayerField.put_current f player

namespace Noted

variable {α : Type} {known cells : List Cell} {p : PlayerId}

theorem ofEngine_apply (x : Engine α) (w : World) (noted : List Change) :
    ofEngine x (w, noted) = ((x w).1, (x w).2, noted) := rfl

theorem ofEngine_eq {x : Engine α} {w : World} {noted : List Change} {result : Except Stop α}
    {t : World × List Change} :
    ofEngine x (w, noted) = (result, t) ↔ ∃ v, x w = (result, v) ∧ t = (v, noted) := by
  rw [ofEngine_apply]
  rcases x w with ⟨r, v⟩
  simp only [Prod.mk.injEq]
  constructor
  · rintro ⟨rfl, rfl⟩; exact ⟨v, ⟨rfl, rfl⟩, rfl⟩
  · rintro ⟨_, ⟨rfl, rfl⟩, rfl⟩; exact ⟨rfl, rfl⟩

theorem ofEngine_eq_ok {x : Engine α} {w : World} {noted : List Change} {a : α}
    {t : World × List Change} :
    ofEngine x (w, noted) = (.ok a, t) ↔ ∃ v, x w = (.ok a, v) ∧ t = (v, noted) := ofEngine_eq

theorem covered_masked {w v : World} {noted : List Change} (h : World.Masked cells w v)
    (hc : known ⊆ cellsOf noted → cells ⊆ cellsOf noted) :
    Covered known (w, noted) (v, noted) := by
  refine ⟨h.game, List.suffix_rfl, fun hk => ?_⟩
  show v.records.putAll v.game _ = _
  rw [h.game]
  exact h.records _ (hc hk)

theorem covered_ofEngine {x : Engine α} (hx : Keeps (World.Masked cells) x) (hc : cells ⊆ known) :
    Keeps (Covered known) (ofEngine x) :=
  fun (w, _) => covered_masked (hx w) fun hk => List.Subset.trans hc hk

theorem covered_alike {x : Engine α} (hx : Keeps World.Alike x) :
    Keeps (Covered known) (ofEngine x) :=
  covered_ofEngine (show Keeps (World.Masked []) x from fun w => (hx w).masked [])
    (List.nil_subset _)

theorem covered_note {w : World} {noted : List Change} {c : Change}
    (h : ∀ e ∈ c.entries, Harmless e (w, noted)) :
    Covered known (w, noted) (w, c :: noted) := by
  refine ⟨rfl, List.suffix_cons .., fun _ => ?_⟩
  show w.records.putAll w.game (c.entries ++ entriesOf noted) = w.records.putAll w.game _
  rw [Records.putAll_append]
  exact Records.putAll_harmless h

/-- Steps that start with a look at a player may go by what it gives. -/
theorem covered_readPlayer {rest : Player → Noted α}
    (h : ∀ player : Player, player.id = p →
      KeepsFrom (Snapshot player) (Covered known) (rest player)) :
    Keeps (Covered known) (ofEngine (Engine.readPlayer p) >>= rest) := by
  refine (covered_alike (Engine.readPlayer_alike p)).bind_of ?_
  rintro ⟨w, noted⟩ player t hr
  obtain ⟨v, hv, rfl⟩ := ofEngine_eq_ok.mp hr
  obtain ⟨hp, hs⟩ := Engine.readPlayer_ok hv
  have hv : v.player? p = some player := hs.player? p ▸ hp
  exact h player (World.player?_id hv) _ (Snapshot.of_player? hv noted)

theorem overwrite_covered (player : Player) (f : PlayerField) :
    KeepsFrom (Snapshot player) (Covered known) (overwrite player f) := by
  rintro ⟨w, noted⟩ hs
  have hn : Covered known (w, noted) (w, .player player.id (f.current player) :: noted) :=
    covered_note fun e he => by
      obtain rfl := List.mem_singleton.mp he
      exact hs f
  refine hn.trans (covered_masked (Engine.update_masked player.id f w) fun _ => ?_)
  simp [cellsOf, Change.entries, Entry.cell]

end Noted

end MarsRules
