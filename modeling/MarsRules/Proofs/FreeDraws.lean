import MarsRules.Proofs.Desks
import MarsRules.Proofs.Upkeep

/-! Drawn cards are free. Effects and first actions offer at most as many cards as may be kept for
nothing; they are fewer where the deck runs out, and where the numbers stop counting there are not that
many cards to draw. An offer that is merged, replaced or put back stays free, as long as it leaves room
for what is left of the deck (`DrawOffer.Free`), so that in a session all that is drawn can be taken
(`Dealings.gratis`). -/

namespace MarsRules

open Steps (Keeps KeepsFrom)

/-- What holds goes on holding, while what is left does not grow. -/
def Dwindles {σ : Type} (left : σ → Nat) (P : σ → Prop) (s t : σ) : Prop := P s → left t ≤ left s ∧ P t

section Dwindles

variable {σ : Type} {left : σ → Nat} {P : σ → Prop} {s t u : σ}

theorem Dwindles.trans (h : Dwindles left P s t) (h' : Dwindles left P t u) : Dwindles left P s u := by
  intro hs
  obtain ⟨hle, ht⟩ := h hs
  obtain ⟨hle', hu⟩ := h' ht
  exact ⟨Nat.le_trans hle' hle, hu⟩

instance : Std.Refl (Dwindles left P) := ⟨fun _ h => ⟨Nat.le_refl _, h⟩⟩

instance : Trans (Dwindles left P) (Dwindles left P) (Dwindles left P) := ⟨Dwindles.trans⟩

end Dwindles

/-- All of the cards can be kept for nothing, also when all that is left of the deck has come to them. -/
structure DrawOffer.Free (left : Nat) (o : DrawOffer) : Prop where
  covered : o.cards.length ≤ o.free
  counted : o.cards.length + left ≤ maxNat32
  unsold : o.maxBought = 0

theorem DrawOffer.Free.later {m n : Nat} {o : DrawOffer} (h : o.Free m) (hle : n ≤ m) : o.Free n :=
  ⟨h.covered, Nat.le_trans (Nat.add_le_add_left hle _) h.counted, h.unsold⟩

/-- No more cards are drawn than were asked for, so that they make no offer dearer. -/
theorem Plan.mergeDraw_free {cards : List CardId} {n left : Nat} {pending : Option DrawOffer}
    (source : CardId) (hdrawn : cards.length ≤ n) (hdeck : cards.length + left ≤ maxNat32)
    (hpending : ∀ o ∈ pending, o.Free (cards.length + left)) :
    (mergeDraw source cards n pending).Free left := by
  cases pending with
  | none => exact ⟨hdrawn, hdeck, rfl⟩
  | some o =>
    obtain ⟨hcovered, hcounted, hunsold⟩ := hpending o rfl
    -- the sum of the free cards may be cut short, but not below what there is to take
    refine ⟨?_, ?_, hunsold⟩
    · simp only [mergeDraw, saturateNat32, List.length_append]
      omega
    · simp only [mergeDraw, List.length_append]
      omega

/-- A record that is found after a change of one was there, or has come of one that was. -/
theorem Records.player?_changePlayer_or {r : Records} {g g' : GameId} {p q : PlayerId}
    {f : Player → Player} {y : Player} (hf : ∀ x, (f x).id = x.id)
    (h : (r.changePlayer g' p f).player? g q = some y) :
    r.player? g q = some y ∨ ∃ x, r.player? g q = some x ∧ y = f x := by
  unfold player? at h ⊢
  rw [roster_changePlayer] at h
  split at h
  · next hg =>
    subst hg
    rcases find?_changeFirst_of_same (p := (·.id == p)) (q := (·.id == q)) (fun x _ => by rw [hf])
      (r.roster g) with hsame | ⟨x, -, hx, hfound⟩
    · exact .inl (hsame.symm.trans h)
    · exact .inr ⟨x, hx, Option.some.inj (h.symm.trans hfound)⟩
  · exact .inl h

theorem PlayerField.drawOffer_put (f : PlayerField) (x : Player) :
    (f.put x).drawOffer = f.offered? ∨ (f.put x).drawOffer = x.drawOffer := by
  cases f with
  | drawOffer => exact .inl rfl
  | _ => exact .inr rfl

namespace Store

variable {g : GameId} {p : PlayerId} {s t u : Store} {offer : Option DrawOffer}

/-- An offer that would be free in this game. -/
def Grants (g : GameId) (s : Store) (offer : Option DrawOffer) : Prop :=
  ∀ o ∈ offer, o.Free (s.deck g).length

/-- The deck can be counted, and every open offer is free. -/
structure Gratis (g : GameId) (s : Store) : Prop where
  deck : (s.deck g).length ≤ maxNat32
  offers : ∀ p x, s.records.player? g p = some x → s.Grants g x.drawOffer

/-- Offers that are free stay so, while the deck is drawn from. -/
abbrev StaysGratis (g : GameId) : Store → Store → Prop := Dwindles (fun s => (s.deck g).length) (Gratis g)

theorem grants_none : s.Grants g none := fun o ho => by cases ho

theorem Grants.later (h : s.Grants g offer) (hle : (t.deck g).length ≤ (s.deck g).length) :
    t.Grants g offer := fun o ho => (h o ho).later hle

theorem staysGratis_of_offers (hd : t.decks = s.decks)
    (ho : ∀ p y, t.records.player? g p = some y →
      s.Grants g y.drawOffer ∨ ∃ x, s.records.player? g p = some x ∧ y.drawOffer = x.drawOffer) :
    StaysGratis g s t := by
  have hdeck : t.deck g = s.deck g := by
    rw [deck, hd]
    rfl
  have hle : (t.deck g).length ≤ (s.deck g).length := Nat.le_of_eq (by rw [hdeck])
  refine fun hs => ⟨hle, Nat.le_trans hle hs.deck, fun p y hy => ?_⟩
  rcases ho p y hy with hgrants | ⟨x, hx, hsame⟩
  · exact hgrants.later hle
  · exact hsame ▸ (hs.offers p x hx).later hle

theorem Alike.staysGratis (h : Alike s t) : StaysGratis g s t :=
  staysGratis_of_offers h.decks fun _ y hy => .inr ⟨y, by rwa [h.records] at hy, rfl⟩

theorem staysGratis_of_change {g' : GameId} {f : Player → Player} (hf : ∀ x, (f x).id = x.id)
    (hr : t.records = s.records.changePlayer g' p f) (hd : t.decks = s.decks)
    (ho : ∀ x, s.Grants g (f x).drawOffer ∨ (f x).drawOffer = x.drawOffer) : StaysGratis g s t := by
  refine staysGratis_of_offers hd fun q y hy => ?_
  rw [hr] at hy
  rcases Records.player?_changePlayer_or hf hy with hy | ⟨x, hx, rfl⟩
  · exact .inr ⟨y, hy, rfl⟩
  · exact (ho x).imp_right fun hsame => ⟨x, hx, hsame⟩

theorem updatePlayer_gratis (p : PlayerId) (f : PlayerField) :
    KeepsFrom (Grants g · f.offered?) (StaysGratis g) (updatePlayer g p f) := by
  intro s hs
  rcases hu : updatePlayer g p f s with ⟨_ | _, t⟩
  · exact (updatePlayer_error hu).staysGratis
  · obtain ⟨-, hr, hd⟩ := updatePlayer_ok hu
    refine staysGratis_of_change f.id_put hr hd fun x => (f.drawOffer_put x).imp_left fun hnew => ?_
    rwa [hnew]

theorem updateGame_gratis (f : GameField) : Keeps (StaysGratis g) (updateGame g f) := by
  intro s
  rcases hu : updateGame g f s with ⟨_ | _, t⟩
  · exact (updateGame_error hu).staysGratis
  · obtain ⟨hr, hd⟩ := updateGame_ok hu
    refine staysGratis_of_offers hd fun p y hy => .inr ⟨y, ?_, rfl⟩
    rwa [hr, Records.player?_changeGame] at hy

theorem addTiles_gratis (g' : GameId) (p : PlayerId) (source : String) (tiles : List TileKind) :
    Keeps (StaysGratis g) (addTiles g' p source tiles) := by
  refine Keeps.bind (fun s => (perform_alike _ s).staysGratis) fun _ => ?_
  split
  · exact Keeps.pure _
  · intro s
    rcases hc : changePlayer g' p _ s with ⟨_ | _, t⟩
    · obtain rfl := changePlayer_error hc
      exact Std.Refl.refl s
    · obtain ⟨-, hr, hd⟩ := changePlayer_ok hc
      exact staysGratis_of_change (f := fun x => { x with queue := some (TileQueue.extend source tiles x.queue) })
        (fun _ => rfl) hr hd fun _ => .inr rfl

theorem placeTile_gratis (g' : GameId) (c : Coord) (tile : TileKind) (owner : Option PlayerId) :
    Keeps (StaysGratis g) (placeTile g' c tile owner) := by
  intro s
  rcases hp : placeTile g' c tile owner s with ⟨_ | _, t⟩
  · exact (placeTile_error hp).staysGratis
  · obtain ⟨_, _, -, -, hr, hd⟩ := placeTile_ok hp
    refine staysGratis_of_offers hd fun p y hy => .inr ⟨y, ?_, rfl⟩
    rw [hr] at hy
    unfold Records.player? at hy ⊢
    rwa [Records.roster_changeGame] at hy

theorem drawCards_length {n : Nat} {cards : List CardId} (h : drawCards g n s = (.ok cards, t)) :
    cards.length ≤ n ∧ cards.length + (t.deck g).length = (s.deck g).length := by
  obtain ⟨deck, hdeck, rfl, -, hd⟩ := drawCards_ok h
  have hs : s.deck g = deck := by
    rw [Store.deck, hdeck]
    rfl
  have ht : t.deck g = deck.drop n := by
    rw [Store.deck, hd, Table.get?_put_self]
    rfl
  rw [hs, ht, ← List.length_append, List.take_append_drop]
  exact ⟨List.length_take_le .., rfl⟩

theorem drawCards_gratis (n : Nat) : Keeps (StaysGratis g) (drawCards g n) := by
  intro s hs
  have hr := drawCards_records g n s
  rcases hd : drawCards g n s with ⟨e | cards, t⟩ <;> rw [hd] at hr
  · exact Alike.staysGratis ⟨hr, (drawCards_error hd).decks not_false⟩ hs
  · obtain ⟨-, hdeck⟩ := drawCards_length hd
    have hle : (t.deck g).length ≤ (s.deck g).length := by omega
    refine ⟨hle, Nat.le_trans hle hs.deck, fun p x hx => ?_⟩
    exact (hs.offers p x (hr ▸ hx)).later hle

theorem drawCards_grants {n : Nat} {cards : List CardId} (h : drawCards g n s = (.ok cards, t))
    (hs : s.Gratis g) (hpending : s.Grants g offer) (source : CardId) :
    t.Grants g (some (Plan.mergeDraw source cards n offer)) := by
  obtain ⟨hdrawn, hdeck⟩ := drawCards_length h
  intro o ho
  obtain rfl := Option.mem_some_iff.mp ho
  refine Plan.mergeDraw_free source hdrawn (hdeck ▸ hs.deck) fun o ho => ?_
  exact hdeck ▸ hpending o ho

end Store

section Undo

variable {g : GameId} (drop : Dropping Session)

open Store (Grants StaysGratis)

theorem Change.undo_gratis {c : Change} {s : Store} (hs : s.Grants g c.offered?) (d : Session) :
    StaysGratis g s (c.undo g drop s d).2.1 := by
  cases c with
  | player p f => exact Store.updatePlayer_gratis p f s hs
  | tiles p queue offer =>
    have hupdate (f : PlayerField) (hf : f.offered? = none) :
        Keeps (StaysGratis g) (Store.updatePlayer g p f) :=
      fun s => Store.updatePlayer_gratis p f s (hf ▸ Store.grants_none)
    exact ((hupdate (.queue queue) rfl).bind fun _ => hupdate (.tileOffer offer) rfl) s
  | subscribed => exact Std.Refl.refl s
  | parameter q n => exact Store.updateGame_gratis _ s

theorem UndoLog.undoAll_gratis {cs : List Change} {s : Store} (hs : ∀ c ∈ cs, s.Grants g c.offered?)
    (d : Session) : StaysGratis g s (undoAll g drop cs s d).2.1 := by
  induction cs generalizing s d with
  | nil => exact Std.Refl.refl s
  | cons c rest ih =>
    obtain ⟨hc, hrest⟩ := List.forall_mem_cons.mp hs
    intro hgratis
    obtain ⟨hdeck, hnext⟩ := Change.undo_gratis drop hc d hgratis
    obtain ⟨hdeck', hlast⟩ := ih (fun c h => (hrest c h).later hdeck) (c.undo g drop s d).2.2 hnext
    exact ⟨Nat.le_trans hdeck' hdeck, hlast⟩

end Undo

namespace World

def Gratis (w : World) : Prop := w.store.Gratis w.game

def Grants (w : World) (offer : Option DrawOffer) : Prop := ∀ o ∈ offer, o.Free w.deck.length

theorem Grants.later {w v : World} {offer : Option DrawOffer} (h : w.Grants offer)
    (hle : v.deck.length ≤ w.deck.length) : v.Grants offer := fun o ho => (h o ho).later hle

theorem grants_none {w : World} : w.Grants none := fun o ho => by cases ho

abbrev StaysGratis : World → World → Prop := Dwindles (·.deck.length) Gratis

theorem staysGratis_of_store {w v : World} (hg : v.game = w.game)
    (h : Store.StaysGratis w.game w.store v.store) : StaysGratis w v := by
  intro hw
  show (v.store.deck v.game).length ≤ _ ∧ v.store.Gratis v.game
  rw [hg]
  exact h hw

theorem Alike.staysGratis {w v : World} (h : Alike w v) : StaysGratis w v :=
  staysGratis_of_store (congrArg Session.game h.session) h.store.staysGratis

end World

namespace Engine

variable {α : Type} {p : PlayerId}

theorem onStore_gratis {x : StoreSteps α} {w : World}
    (h : Store.StaysGratis w.game w.store (x w.store).2) : World.StaysGratis w (onStore x w).2 := by
  unfold onStore
  rcases hx : x w.store with ⟨_ | _, t⟩ <;> rw [hx] at h <;> exact World.staysGratis_of_store rfl h

theorem update_gratis (p : PlayerId) (f : PlayerField) :
    KeepsFrom (World.Grants · f.offered?) World.StaysGratis (update p f) :=
  fun w hw => onStore_gratis (Store.updatePlayer_gratis p f w.store hw)

theorem drawCards_gratis (n : Nat) (w : World) :
    World.StaysGratis w (onStore (Store.drawCards w.game n) w).2 :=
  onStore_gratis (Store.drawCards_gratis n w.store)

theorem drawCards_grants {n : Nat} {cards : List CardId} {w v : World} {offer : Option DrawOffer}
    (h : onStore (Store.drawCards w.game n) w = (.ok cards, v)) (hw : w.Gratis)
    (hpending : w.Grants offer) (source : CardId) :
    v.Grants (some (Plan.mergeDraw source cards n offer)) := by
  obtain ⟨t, ht, rfl⟩ := onStore_eq_ok.mp h
  exact Store.drawCards_grants ht hw hpending source

theorem offerCards_gratis (p : PlayerId) (n : Nat) (source : CardId) : Keeps World.StaysGratis (do
    let cards ← onStore (Store.drawCards (← gameId) n)
    update p (.drawOffer (some { cards, free := n, maxBought := 0, price := 0, source }))) := by
  refine fun w hw => Steps.related_bind (R := World.StaysGratis) (Std.Refl.refl w) (fun g t ht => ?_) hw
  cases ht
  refine Steps.related_bind (drawCards_gratis n w) fun cards v hdraw => ?_
  exact update_gratis p _ v (drawCards_grants hdraw hw Store.grants_none source)

end Engine

namespace Noted

variable {α : Type}

/-- Every open offer is free, and so is what would be offered again if the transaction were put back. -/
structure Gratis (s : World × List Change) : Prop where
  world : s.1.Gratis
  noted : ∀ c ∈ s.2, s.1.Grants c.offered?

abbrev StaysGratis : World × List Change → World × List Change → Prop := Dwindles (·.1.deck.length) Gratis

theorem note_gratis {c : Change} {s : World × List Change} (h : s.1.Grants c.offered?) :
    StaysGratis s (note c s).2 :=
  fun hs => ⟨Nat.le_refl _, hs.world, List.forall_mem_cons.mpr ⟨h, hs.noted⟩⟩

theorem ofEngine_gratisAt {x : Engine α} {s : World × List Change} (h : World.StaysGratis s.1 (x s.1).2) :
    StaysGratis s (ofEngine x s).2 := by
  intro hs
  obtain ⟨hdeck, hv⟩ := h hs.world
  exact ⟨hdeck, hv, fun c hc => (hs.noted c hc).later hdeck⟩

theorem ofEngine_gratis {x : Engine α} (h : Keeps World.StaysGratis x) : Keeps StaysGratis (ofEngine x) :=
  fun s => ofEngine_gratisAt (h s.1)

/-- A field is overwritten, if neither what it held nor what it is to hold offers cards at a price. -/
theorem overwrite_gratis {player : Player} {f : PlayerField} {s : World × List Change}
    (hold : s.1.Grants (f.current player).offered?) (hnew : s.1.Grants f.offered?) :
    StaysGratis s (overwrite player f s).2 :=
  (note_gratis (c := .player player.id (f.current player)) hold).trans
    (ofEngine_gratisAt (Engine.update_gratis player.id f _ hnew))

end Noted

theorem transact_gratis {α : Type} {drop : Dropping Session} {steps : Noted α}
    (hdrop : ∀ card s, Session.SameGame s (drop card s).2) (h : Keeps Noted.StaysGratis steps) :
    Keeps World.StaysGratis (transact drop steps) := by
  intro w hw
  have hsteps := h (w, []) ⟨hw, List.forall_mem_nil _⟩
  unfold transact
  rcases hs : steps (w, []) with ⟨stop | a, u, noted⟩ <;> rw [hs] at hsteps
  · cases stop with
    | refused e restored =>
      obtain ⟨hdeck, hu⟩ := hsteps
      have hgame := UndoLog.undoAll_keeper (R := Session.SameGame) (g := u.game) hdrop noted u.store u.session
      have hback : World.StaysGratis u ⟨_, _⟩ :=
        World.staysGratis_of_store hgame (UndoLog.undoAll_gratis (g := u.game) drop hu.noted u.session)
      obtain ⟨hdeck', hv⟩ := hback hu.world
      exact ⟨Nat.le_trans hdeck' hdeck, hv⟩
    | brokenRange | tooDeep => exact ⟨hsteps.1, hsteps.2.world⟩
  · exact ⟨hsteps.1, hsteps.2.world⟩

namespace Plan

/-- The record that a draw goes by may be out of date, but what it had on offer has to be free still. -/
theorem writeDraw_gratis (plan : Plan) (player : Player) :
    KeepsFrom (fun s => Noted.Gratis s ∧ s.1.Grants player.drawOffer) Noted.StaysGratis
      (plan.writeDraw player) := by
  refine KeepsFrom.when ?_ _
  rintro ⟨w, noted⟩ ⟨hs, hpending⟩
  refine Steps.related_bind (Std.Refl.refl _) fun g t ht => ?_
  cases ht
  refine Steps.related_bind (Noted.ofEngine_gratisAt (Engine.drawCards_gratis plan.draw w)) fun cards t ht => ?_
  obtain ⟨v, hdraw, rfl⟩ := Noted.ofEngine_eq.mp ht
  have hdraw : Engine.onStore (Store.drawCards w.game plan.draw) w = (.ok cards, v) := hdraw
  have hkeeps := Engine.drawCards_gratis plan.draw w hs.world
  rw [hdraw] at hkeeps
  exact Noted.overwrite_gratis (hpending.later hkeeps.1)
    (Engine.drawCards_grants hdraw hs.world hpending plan.source)

/-- What was read at the start of a transaction stays a free offer through it. -/
theorem writeDraw_after_gratis {α : Type} {x : Player → Noted α} (plan : Plan)
    (hx : ∀ player, Keeps Noted.StaysGratis (x player)) : Keeps Noted.StaysGratis (do
      let player ← Engine.readPlayer plan.player
      let a ← x player
      plan.writeDraw player
      return a) := by
  have hread : Keeps Noted.StaysGratis (Noted.ofEngine (Engine.readPlayer plan.player)) :=
    Noted.ofEngine_gratis fun w => (Engine.readPlayer_alike plan.player w).staysGratis
  refine Keeps.bind_of hread fun s player t ht htg => ?_
  have hpending : t.1.Grants player.drawOffer := by
    obtain ⟨v, hv, rfl⟩ := Noted.ofEngine_eq.mp (show Noted.ofEngine _ (s.1, s.2) = _ from ht)
    obtain ⟨hp, ha⟩ := Engine.readPlayer_ok hv
    exact htg.world.offers _ _ ((ha.player? _).trans hp)
  have hstays (s t : World × List Change) (h : Noted.StaysGratis s t)
      (hs : Noted.Gratis s ∧ s.1.Grants player.drawOffer) : Noted.Gratis t ∧ t.1.Grants player.drawOffer :=
    ⟨(h hs.1).2, hs.2.later (h hs.1).1⟩
  have hrest : KeepsFrom (fun s => Noted.Gratis s ∧ s.1.Grants player.drawOffer) Noted.StaysGratis (do
      let a ← x player
      plan.writeDraw player
      return a) :=
    ((hx player).from _).bind hstays fun a =>
      (plan.writeDraw_gratis player).bind hstays fun _ => (Keeps.pure a).from _
  exact hrest t ⟨htg, hpending⟩ htg

end Plan

/-- Free offers stay free through everything that a session does but placing tiles, which is no different. -/
def gratisUpkeep : Upkeep where
  world := World.StaysGratis
  noted := Noted.StaysGratis
  trans := Dwindles.trans
  noted_trans := Dwindles.trans
  alike h := h.staysGratis
  changeSession hf _ := World.staysGratis_of_store (hf _) (Std.Refl.refl _)
  update p f hf w := Engine.update_gratis p f w (hf ▸ World.grants_none)
  updateGame f w := Engine.onStore_gratis (Store.updateGame_gratis f w.store)
  addTiles g p source tiles w := Engine.onStore_gratis (Store.addTiles_gratis g p source tiles w.store)
  ofEngine := Noted.ofEngine_gratis
  note hc _ := Noted.note_gratis (hc ▸ World.grants_none)
  transact := transact_gratis
  offerCards := Engine.offerCards_gratis
  writeDraw := Plan.writeDraw_after_gratis

theorem Ask.reply_gratis (book : Rulebook) (a : Ask) : Keeps World.StaysGratis (a.reply book) :=
  gratisUpkeep.reply book fun p c _ => gratisUpkeep.place book p c fun g tile owner w =>
    Engine.onStore_gratis (Store.placeTile_gratis g c tile owner w.store)

/-- What a session comes to when it is asked one thing after the other. Calls may fail at any time, and what
is asked may be refused or stop. -/
inductive Dealings (book : Rulebook) (w₀ : World) : World → Prop
  | start : Dealings book w₀ w₀
  | asked {w : World} (h : Dealings book w₀ w) (outages : Call → List Outage) (a : Ask) :
      Dealings book w₀ (a.reply book (w.withOutages outages)).2

/-- In a session that starts with no cards on offer, all that is offered is free. -/
theorem Dealings.gratis {book : Rulebook} {w₀ w : World} (h : Dealings book w₀ w)
    (hdeck : w₀.deck.length < 2 ^ 32) (hnone : ∀ p x, w₀.player? p = some x → x.drawOffer = none) :
    w.Gratis := by
  induction h with
  | start => exact ⟨Nat.le_of_lt_succ hdeck, fun p x hx => hnone p x hx ▸ Store.grants_none⟩
  | @asked w _ outages a ih =>
    have hw : (w.withOutages outages).Gratis := ⟨ih.deck, ih.offers⟩
    exact (a.reply_gratis book _ hw).2

end MarsRules
