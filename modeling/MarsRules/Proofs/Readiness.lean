import MarsRules.Proofs.Played
import MarsRules.Proofs.Refusals

/-! From records that are all there, whatever is planned can be written: the writing of a play stops
only where a call is unavailable. -/

namespace MarsRules

open Steps (Sound SoundAt)

namespace Store

/-- No call is going to fail. -/
def Reliable (s : Store) : Prop := ∀ c, ∀ o ∈ s.outages c, o.times = 0

/-- The game and the player are there. If `b` then every call gets through, and if `d` then there is a
deck. -/
structure Ready (b d : Prop) (g : GameId) (p : PlayerId) (s : Store) : Prop where
  game : ∃ game, s.records.game? g = some game
  player : ∃ player, s.records.player? g p = some player
  deck : d → ∃ deck, s.decks.get? g = some deck
  reliable : b → s.Reliable

/-- A call was unavailable, which is not so if `b`. -/
def Unserved (b : Prop) (e : Refusal) : Prop := ¬ b ∧ e = unavailable

end Store

theorem Outage.next_of_idle {os : List Outage} (h : ∀ o ∈ os, o.times = 0) :
    (next os).1 = true ∧ ∀ o ∈ (next os).2, o.times = 0 := by
  induction os with
  | nil => simp [next]
  | cons o rest ih =>
    obtain ⟨ho, hrest⟩ := List.forall_mem_cons.mp h
    obtain ⟨skip, times⟩ := o
    obtain rfl : times = 0 := ho
    cases skip with
    | zero => exact ih hrest
    | succ skip => exact ⟨rfl, List.forall_mem_cons.mpr ⟨rfl, hrest⟩⟩

namespace Store

variable {b d : Prop} {g : GameId} {p : PlayerId} {s : Store}

theorem Reliable.call (h : s.Reliable) (c : Call) : (s.call c).1 = true ∧ (s.call c).2.Reliable := by
  unfold Store.call
  split
  · exact ⟨rfl, h⟩
  · obtain ⟨hnext, hrest⟩ := Outage.next_of_idle (h c)
    refine ⟨hnext, fun d o ho => ?_⟩
    by_cases hd : d = c
    · exact hrest o (by simpa [breakDown, hd] using ho)
    · exact h d o (by simpa [breakDown, hd] using ho)

theorem Ready.of_alike {t : Store} (h : s.Ready b d g p) (ha : Alike s t) (ht : b → t.Reliable) :
    t.Ready b d g p where
  game := ha.records ▸ h.game
  player := ha.records ▸ h.player
  deck := ha.decks ▸ h.deck
  reliable := ht

theorem perform_sound (c : Call) : Sound (Ready b d g p) (Unserved b) (perform c) := by
  intro s hs
  have ha := call_alike s c
  have hcall (hb : b) := (hs.reliable hb).call c
  unfold perform
  rcases hc : s.call c with ⟨_ | _, t⟩ <;> rw [hc] at ha hcall
  · exact ⟨by simp [hc], fun e u h => ⟨fun hb => by simpa using (hcall hb).1, by simp_all⟩⟩
  · refine ⟨fun a u h => ?_, by simp [hc]⟩
    obtain rfl : t = u := by simpa [hc] using h
    exact hs.of_alike ha fun hb => (hcall hb).2

theorem thePlayer_sound : Sound (Ready b d g p) (Unserved b) (thePlayer g p) := by
  intro s hs
  obtain ⟨player, hp⟩ := hs.player
  have h : thePlayer g p s = (.ok player, s) := thePlayer_eq_ok.mpr ⟨hp, rfl⟩
  exact ⟨fun _ _ ht => by cases h.symm.trans ht; exact hs, fun _ _ ht => by cases h.symm.trans ht⟩

theorem theGame_sound : Sound (Ready b d g p) (Unserved b) (theGame g) := by
  intro s hs
  obtain ⟨game, hg⟩ := hs.game
  have h : theGame g s = (.ok game, s) := theGame_eq_ok.mpr ⟨hg, rfl⟩
  exact ⟨fun _ _ ht => by cases h.symm.trans ht; exact hs, fun _ _ ht => by cases h.symm.trans ht⟩

theorem readPlayer_sound : Sound (Ready b d g p) (Unserved b) (readPlayer g p) :=
  (perform_sound _).bind fun _ => thePlayer_sound

theorem readGame_sound : Sound (Ready b d g p) (Unserved b) (readGame g) :=
  (perform_sound _).bind fun _ => theGame_sound

theorem changePlayer_sound {f : Player → Player} (hf : ∀ x, (f x).id = x.id) :
    Sound (Ready b d g p) (Unserved b) (changePlayer g p f) := by
  refine thePlayer_sound.bind fun _ s hs => SoundAt.change { hs with player := ?_ }
  obtain ⟨player, hp⟩ := hs.player
  have hid : ∀ x : Player, (x.id == p) = true → ((f x).id == p) = true := by simp [hf]
  refine ⟨f player, ?_⟩
  have hp : (s.roster g).find? (·.id == p) = some player := hp
  show (((s.rosters.put g _).get? g).getD []).find? (·.id == p) = _
  rw [Table.get?_put_self, Option.getD_some, find?_changeFirst hid, hp]
  rfl

theorem changeGame_sound (f : Game → Game) :
    Sound (Ready b d g p) (Unserved b) (changeGame g f) := by
  refine theGame_sound.bind fun game s hs => SoundAt.change { hs with game := ⟨f game, ?_⟩ }
  exact Table.get?_put_self ..

theorem updatePlayer_sound (f : PlayerField) :
    Sound (Ready b d g p) (Unserved b) (updatePlayer g p f) :=
  (perform_sound _).bind fun _ => changePlayer_sound f.id_put

theorem updateGame_sound (f : GameField) : Sound (Ready b d g p) (Unserved b) (updateGame g f) :=
  (perform_sound _).bind fun _ => changeGame_sound f.put

theorem addTiles_sound (source : String) (tiles : List TileKind) :
    Sound (Ready b d g p) (Unserved b) (addTiles g p source tiles) := by
  refine (perform_sound _).bind fun _ => ?_
  split
  · exact Sound.pure _
  · exact changePlayer_sound fun _ => rfl

theorem drawCards_sound (hd : d) (n : Nat) : Sound (Ready b d g p) (Unserved b) (drawCards g n) := by
  refine (perform_sound _).bind fun _ s hs => ?_
  refine SoundAt.bind (Sound.read s hs) fun _ t ht hready => ?_
  cases ht
  obtain ⟨deck, hdeck⟩ := hs.deck hd
  simp only [hdeck]
  refine SoundAt.bind (SoundAt.change { hs with deck := fun _ => ⟨deck.drop n, ?_⟩ }) fun _ _ _ h => .pure h
  exact Table.get?_put_self ..

end Store

/-- The records that a player's operations go by are there. -/
def World.Ready (b d : Prop) (p : PlayerId) (w : World) : Prop := w.store.Ready b d w.game p

def Stop.Unserved (b : Prop) : Stop → Prop
  | .refused e _ => Store.Unserved b e
  | _ => False

namespace Engine

variable {α : Type} {b d : Prop} {p : PlayerId} {w : World}

theorem onStore_soundAt {x : StoreSteps α}
    (h : SoundAt (Store.Ready b d w.game p) (Store.Unserved b) x w.store) :
    SoundAt (World.Ready b d p) (Stop.Unserved b) (onStore x) w where
  ok a v hv := by
    obtain ⟨t, ht, rfl⟩ := onStore_eq_ok.mp hv
    exact h.ok a t ht
  stop stop v hv := by
    obtain ⟨e, t, ht, rfl, -⟩ := onStore_eq_error.mp hv
    exact h.stop e t ht

theorem onStore_sound {x : StoreSteps α} (h : Sound (Store.Ready b d w.game p) (Store.Unserved b) x)
    (hw : w.Ready b d p) : SoundAt (World.Ready b d p) (Stop.Unserved b) (onStore x) w :=
  onStore_soundAt (h w.store hw)

theorem gameId_sound {S : Stop → Prop} : Sound (World.Ready b d p) S gameId := fun w hw =>
  ⟨fun _ _ h => by cases h; exact hw, fun _ _ h => by cases h⟩

/-- A call that is made on the session's game. -/
theorem onGame_sound {x : GameId → StoreSteps α}
    (h : ∀ g, Sound (Store.Ready b d g p) (Store.Unserved b) (x g)) :
    Sound (World.Ready b d p) (Stop.Unserved b) (gameId >>= fun g => onStore (x g)) := by
  intro w hw
  refine (gameId_sound w hw).bind fun g t ht hready => ?_
  cases ht
  exact onStore_sound (h _) hready

theorem readPlayer_sound : Sound (World.Ready b d p) (Stop.Unserved b) (readPlayer p) :=
  onGame_sound fun _ => Store.readPlayer_sound

theorem readGame_sound : Sound (World.Ready b d p) (Stop.Unserved b) readGame :=
  onGame_sound fun _ => Store.readGame_sound

theorem update_sound (f : PlayerField) : Sound (World.Ready b d p) (Stop.Unserved b) (update p f) :=
  onGame_sound fun _ => Store.updatePlayer_sound f

theorem updateGame_sound (f : GameField) :
    Sound (World.Ready b d p) (Stop.Unserved b) (updateGame f) :=
  onGame_sound fun _ => Store.updateGame_sound f

/-- A check may be refused for what it finds; what it goes by stays. -/
theorem checkPlay_sound (book : Rulebook) (r : PlayRequest) :
    Sound (World.Ready b d p) (fun _ => True) (checkPlay book p r) := by
  have hof {β : Type} (y : Except Refusal β) : Sound (World.Ready b d p) (fun _ => True) (ofExcept y) :=
    fun w hw => ⟨fun a t ht => (ofExcept_eq_ok.mp ht).2 ▸ hw, fun _ _ _ => trivial⟩
  refine (readGame_sound.mono fun _ _ => trivial).bind fun game => ?_
  refine (readPlayer_sound.mono fun _ _ => trivial).bind fun player => ?_
  refine Sound.bind (Sound.bind ?_ fun _ => hof _) fun card => (hof _).bind fun _ => Sound.pure _
  exact Sound.mono (S := Stop.Unserved b) (fun w hw => onStore_sound (Store.perform_sound _) hw)
    fun _ _ => trivial

theorem offerNext_sound (board : Board) :
    Sound (World.Ready b d p) (Stop.Unserved b) (offerNext p board) := by
  refine readPlayer_sound.bind fun player => ?_
  split
  · split
    · exact (update_sound _).bind fun _ => (update_sound _).bind fun _ => Sound.pure _
    · exact (update_sound _).bind fun _ => Sound.pure _
  · exact Sound.pure _

theorem advanceQueue_sound : Sound (World.Ready b d p) (Stop.Unserved b) (advanceQueue p) :=
  readGame_sound.bind fun game => offerNext_sound game.board

end Engine

namespace Noted

variable {α : Type} {b d : Prop} {p : PlayerId}

/-- The same of the world that a transaction works on. -/
abbrev Ready (b d : Prop) (p : PlayerId) (s : World × List Change) : Prop := s.1.Ready b d p

theorem ofEngine_soundAt {x : Engine α} {s : World × List Change}
    (h : SoundAt (World.Ready b d p) (Stop.Unserved b) x s.1) :
    SoundAt (Ready b d p) (Stop.Unserved b) (ofEngine x) s where
  ok a t ht := by
    obtain ⟨v, hv, rfl⟩ := ofEngine_eq_ok.mp (show ofEngine x (s.1, s.2) = _ from ht)
    exact h.ok a v hv
  stop e t ht := by
    rw [show ofEngine x s = ((x s.1).1, (x s.1).2, s.2) from ofEngine_apply x s.1 s.2] at ht
    exact h.stop e (x s.1).2 (Prod.ext (Prod.ext_iff.mp ht).1 rfl)

theorem ofEngine_sound {x : Engine α} (h : Sound (World.Ready b d p) (Stop.Unserved b) x) :
    Sound (Ready b d p) (Stop.Unserved b) (ofEngine x) := fun s hs => ofEngine_soundAt (h s.1 hs)

theorem note_sound (c : Change) : Sound (Ready b d p) (Stop.Unserved b) (note c) :=
  fun _ hs => SoundAt.change hs

theorem overwrite_sound {player : Player} (hp : player.id = p) (f : PlayerField) :
    Sound (Ready b d p) (Stop.Unserved b) (overwrite player f) :=
  (note_sound _).bind fun _ => ofEngine_sound (hp ▸ Engine.update_sound f)

theorem subscribe_sound (owner : PlayerId) (noted : List CardId) (effects : List CardEffect) :
    Sound (Ready b d p) (Stop.Unserved b) (subscribe owner noted effects) := by
  induction effects generalizing noted with
  | nil => exact Sound.pure _
  | cons e rest ih =>
    refine ((note_sound _).when _).bind fun _ => Sound.bind (ofEngine_sound fun w hw => ?_)
      fun _ => ih _
    refine SoundAt.change ?_
    show Store.Ready b d (w.session.subscribe owner e).2.game p w.store
    rw [Session.subscribe_game]
    exact hw

variable {rules : Rules} (hr : rules.Ordered)

include hr

theorem moveParameter_sound (now : Parameters) (q : GlobalParameter) (n : Int) :
    Sound (Ready b d p) (Stop.Unserved b) (moveParameter rules now q n) := by
  unfold moveParameter
  split
  · exact Sound.pure _
  · rw [of?_eq_moved (hr q)]
    dsimp only
    split
    · refine (note_sound _).bind fun _ => ?_
      exact (ofEngine_sound (Engine.updateGame_sound _)).bind fun _ => Sound.pure _
    · exact Sound.pure _

theorem moveParameters_sound (now : Parameters) (steps : List (GlobalParameter × Int)) :
    Sound (Ready b d p) (Stop.Unserved b) (moveParameters rules now steps) := by
  induction steps with
  | nil => exact Sound.pure _
  | cons step rest ih =>
    exact (moveParameter_sound hr now step.1 step.2).bind fun _ => ih.bind fun _ => Sound.pure _

theorem applySteps_sound (steps : List (GlobalParameter × Int)) :
    Sound (Ready b d p) (Stop.Unserved b) (applySteps rules p steps) := by
  unfold applySteps
  split
  · exact Sound.pure _
  · refine (ofEngine_sound Engine.readGame_sound).bind fun game => ?_
    refine (moveParameters_sound hr _ steps).bind fun changes => ?_
    refine Sound.bind (Sound.when (fun s hs => ?_) _) fun _ => Sound.pure _
    refine SoundAt.bind (ofEngine_sound Engine.readPlayer_sound s hs) fun player t ht hready => ?_
    obtain ⟨v, hv, rfl⟩ := ofEngine_eq_ok.mp (show ofEngine _ (s.1, s.2) = _ from ht)
    exact overwrite_sound (World.player?_id (Engine.readPlayer_ok hv).1) _ _ hready

end Noted

theorem transact_sound {α : Type} {b d : Prop} {p : PlayerId} {drop : Dropping Session} {steps : Noted α}
    {w : World} (h : SoundAt (Noted.Ready b d p) (Stop.Unserved b) steps (w, [])) :
    SoundAt (World.Ready b d p) (Stop.Unserved b) (transact drop steps) w where
  ok a v hv := by
    obtain ⟨noted, hs⟩ := transact_ok hv
    exact h.ok a (v, noted) hs
  stop stop v hv := by
    rcases hs : steps (w, []) with ⟨stop' | a, u, noted⟩
    · have hstop : stop'.Unserved b := h.stop stop' _ hs
      cases stop' with
      | refused e restored =>
        simp only [transact, hs] at hv
        cases (Prod.mk.inj hv).1
        exact hstop
      | brokenRange | tooDeep => exact hstop.elim
    · simp [transact, hs] at hv

namespace Plan

variable {b d : Prop} {p : PlayerId} {plan : Plan} {rules : Rules} {player : Player}

theorem writeTiles_sound (hp : plan.player = p) :
    Sound (Noted.Ready b d p) (Stop.Unserved b) (plan.writeTiles player) := by
  subst hp
  refine Sound.when ((Noted.note_sound _).bind fun _ s hs => ?_) _
  refine SoundAt.bind (Noted.ofEngine_sound Engine.gameId_sound s hs) fun g t ht hready => ?_
  cases ht
  have hadd := Noted.ofEngine_soundAt (Engine.onStore_sound
    (Store.addTiles_sound plan.source plan.tiles) hready)
  refine SoundAt.bind hadd fun _ u _ hu => ?_
  exact (Noted.ofEngine_sound Engine.advanceQueue_sound).bind (fun _ => Sound.pure _) u hu

theorem writeDraw_sound (hd : d) (hp : player.id = p) :
    Sound (Noted.Ready b d p) (Stop.Unserved b) (plan.writeDraw player) := by
  refine Sound.when (fun s hs => ?_) _
  refine SoundAt.bind (Noted.ofEngine_sound Engine.gameId_sound s hs) fun g t ht hready => ?_
  cases ht
  have hdraw := Noted.ofEngine_soundAt (Engine.onStore_sound (Store.drawCards_sound hd plan.draw) hready)
  exact SoundAt.bind hdraw fun _ u _ hu => Noted.overwrite_sound hp _ u hu

theorem writeRecord_sound (hp : plan.player = p) (hid : player.id = p) (hu : plan.used = none)
    (listening : Bool) :
    Sound (Noted.Ready b d p) (Stop.Unserved b) (plan.writeRecord player listening) := by
  have ho (f : PlayerField) := Noted.overwrite_sound (b := b) (d := d) hid f
  refine ((ho _).when _).bind fun _ => ?_
  refine Sound.bind (Sound.when ?_ _) fun _ => ?_
  · rw [hu]
    exact Sound.bind (Noted.ofEngine_sound (Sound.pure _)) fun _ => ho _
  refine Sound.bind (Sound.when ((ho _).bind fun _ => (Noted.subscribe_sound _ _ _).when _) _)
    fun _ => ?_
  refine ((ho _).when _).bind fun _ => ?_
  refine ((ho _).when _).bind fun _ => ?_
  refine ((ho _).when _).bind fun _ => ?_
  refine ((ho _).when _).bind fun _ => ?_
  exact writeTiles_sound hp

theorem commit_sound (hr : rules.Ordered) (hd : d) (hp : plan.player = p) (hu : plan.used = none)
    (listening : Bool) :
    Sound (World.Ready b d p) (Stop.Unserved b) (plan.commit rules listening) := by
  intro w hw
  refine SoundAt.bind (transact_sound ?_) fun _ t _ ht =>
    (Engine.gameId_sound.bind fun _ => Sound.pure _) t ht
  rw [Plan.write, hp]
  refine SoundAt.bind (Noted.ofEngine_sound Engine.readPlayer_sound (w, []) hw) fun player t ht hready => ?_
  obtain ⟨v, hv, rfl⟩ := Noted.ofEngine_eq_ok.mp ht
  have hid := World.player?_id (Engine.readPlayer_ok hv).1
  refine ((writeRecord_sound hp hid hu listening).bind fun _ => ?_) _ hready
  exact (Noted.applySteps_sound hr _).bind fun _ => (writeDraw_sound hd hid).bind fun _ => Sound.pure _

end Plan

namespace Engine

variable {b d : Prop} {p : PlayerId} {book : Rulebook} {rules : Rules} {w v : World} {player : Player}
  {card : Card} {r : PlayRequest} {paid : ResourceSet}

/-- What a card does can be written if it can be planned for the player as the record is. -/
theorem commitCard_sound (hr : rules.Ordered) (hd : d) {choice : Option Nat} {target : Option CardId} {plan : Plan}
    (hp : w.player? p = some player) (hplan : Plan.ofCard card player choice target = .ok plan)
    (hw : w.Ready b d p) : SoundAt (World.Ready b d p) (Stop.Unserved b)
      (commitCard rules p card choice target) w := by
  refine SoundAt.bind (readPlayer_sound w hw) fun player' t ht hready => ?_
  obtain rfl := Option.some.inj (hp.symm.trans (readPlayer_ok ht).1)
  rw [hplan]
  refine SoundAt.bind (Sound.pure plan t hready) fun plan' u hu hready' => ?_
  obtain ⟨rfl, rfl⟩ := Steps.pure_eq_ok.mp hu
  have hgains := (Plan.ofCard_gains hplan).1
  have hplayer : plan.player = p := hgains.player.trans (World.player?_id hp)
  have hused : plan.used = none := hgains.used
  split
  · exact .pure hready'
  · exact Plan.commit_sound hr hd hplayer hused true t hready'

theorem writePaid_sound (hid : player.id = p) :
    Sound (Noted.Ready b d p) (Stop.Unserved b) (writePaid player card r paid) := by
  have ho (f : PlayerField) := Noted.overwrite_sound (b := b) (d := d) hid f
  refine ((ho _).when _).bind fun _ => (ho _).bind fun _ => (ho _).bind fun _ => ?_
  unfold startTokens
  split
  · exact ho _
  · exact Sound.pure _

/-- A play that has passed its checks is written, unless a call is unavailable. -/
theorem commitPlay_sound (hr : book.rules.Ordered) (hd : d)
    (hcheck : checkPlay book p r w = (.ok (player, card, paid), v)) (hw : w.Ready b d p) :
    SoundAt (World.Ready b d p) (Stop.Unserved b) (commitPlay book p r) w := by
  have hp := checkPlay_player? hcheck
  have hid := World.player?_id hp
  have hv := (checkPlay_sound book r w hw).ok _ v hcheck
  obtain ⟨game, hchecked⟩ := checkPlay_checked hcheck
  obtain ⟨plan, hplan⟩ := (Card.checkPlay_ok hchecked).planned
  have hok : SoundAt (World.Ready b d p) (Stop.Unserved b) (checkPlay book p r) w :=
    ⟨(checkPlay_sound book r w hw).ok, fun _ _ h => by cases hcheck.symm.trans h⟩
  refine hok.bind fun checked t ht _ => ?_
  cases hcheck.symm.trans ht
  refine SoundAt.bind (transact_sound ?_) fun _ u _ hu => (gameId_sound.bind fun _ => Sound.pure _) u hu
  rw [writePlay_eq]
  refine (writePaid_sound hid (v, []) hv).bind fun _ s hs hready => ?_
  refine Noted.ofEngine_soundAt ?_
  rw [hid]
  exact commitCard_sound hr hd (hid ▸ (writePaid_reached hs (hid.symm ▸ hp)).player?) hplan hready

end Engine

end MarsRules
