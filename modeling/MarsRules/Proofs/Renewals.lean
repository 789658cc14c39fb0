import MarsRules.Proofs.Generations
import MarsRules.Proofs.Retriggers

/-! Starting a generation where calls can fail. The generation is counted on first, and then the players
are renewed one after the other; nothing puts the count back when one of these writes fails
(`Engine.advanceGeneration_halts`). So the first players of the roster are renewed, the others are not, and
starting the generation again counts on once more. -/

namespace MarsRules

/-- How many calls get through before one fails, of so many that are made. -/
def Outage.granted (os : List Outage) : Nat → Nat
  | 0 => 0
  | n + 1 => if (next os).1 then granted (next os).2 n + 1 else 0

theorem Outage.granted_succ (os : List Outage) (n : Nat) :
    granted os (n + 1) = if (next os).1 then granted (next os).2 n + 1 else 0 := rfl

theorem Outage.granted_le (os : List Outage) (n : Nat) : granted os n ≤ n := by
  induction n generalizing os with
  | zero => exact Nat.le_refl 0
  | succ n ih =>
    unfold granted
    split
    · exact Nat.succ_le_succ (ih _)
    · exact Nat.zero_le _

namespace Store

variable {c : Call} {s : Store}

theorem call_outages (s : Store) (c : Call) : (s.call c).2.outages c = (Outage.next (s.outages c)).2 := by
  unfold call
  split
  · next h => rw [h]; rfl
  · exact if_pos rfl

theorem changePlayer_outages (g : GameId) (p : PlayerId) (f : Player → Player) (s : Store) :
    (changePlayer g p f s).2.outages = s.outages := by
  unfold changePlayer
  rw [Steps.bind_apply]
  unfold thePlayer
  cases s.player? g p <;> rfl

theorem updatePlayer_outages (g : GameId) (p : PlayerId) (f : PlayerField) (s : Store) :
    (updatePlayer g p f s).2.outages = (s.call f.write).2.outages := by
  unfold updatePlayer
  rw [Steps.bind_apply, perform_eq]
  split
  · next h =>
    cases hs : s.serves f.write <;> simp only [hs] at h <;> cases h
    exact changePlayer_outages g p f.put _
  · next h =>
    cases hs : s.serves f.write <;> simp only [hs] at h <;> cases h
    rfl

end Store

namespace Player

/-- Some action has been used in this generation. -/
def hasActed (x : Player) : Bool := x.actions.any (0 < ·.plays)

theorem renewed_of_not_hasActed {x : Player} (h : x.hasActed = false) : x.renewed = x :=
  renewed_of_unused (by simpa [hasActed] using h)

@[simp] theorem hasActed_renewed (x : Player) : x.renewed.hasActed = false := by
  simp [hasActed, renewed]

@[simp] theorem renewed_renewed (x : Player) : x.renewed.renewed = x.renewed :=
  renewed_of_not_hasActed x.hasActed_renewed

end Player

/-- The roster when so many of those who have acted are renewed, the first ones first. -/
def renewFirst : Nat → List Player → List Player
  | _, [] => []
  | n, x :: rest =>
    if x.hasActed then
      match n with
      | 0 => x :: rest
      | n + 1 => x.renewed :: renewFirst n rest
    else x :: renewFirst n rest

section RenewFirst

variable (n : Nat) (players : List Player)

@[simp] theorem renewFirst_zero : renewFirst 0 players = players := by
  induction players with
  | nil => rfl
  | cons x rest ih => cases hx : x.hasActed <;> simp [renewFirst, hx, ih]

@[simp] theorem ids_renewFirst : (renewFirst n players).map (·.id) = players.map (·.id) := by
  induction players generalizing n with
  | nil => rfl
  | cons x rest ih =>
    cases hx : x.hasActed with
    | false => simp [renewFirst, hx, ih]
    | true => cases n <;> simp [renewFirst, hx, ih, Player.renewed]

@[simp] theorem renewed_renewFirst :
    (renewFirst n players).map Player.renewed = players.map Player.renewed := by
  induction players generalizing n with
  | nil => rfl
  | cons x rest ih =>
    cases hx : x.hasActed with
    | false => simp [renewFirst, hx, ih]
    | true => cases n <;> simp [renewFirst, hx, ih]

theorem renewFirst_renewFirst (m : Nat) :
    renewFirst n (renewFirst m players) = renewFirst (m + n) players := by
  induction players generalizing m with
  | nil => rfl
  | cons x rest ih =>
    cases hx : x.hasActed with
    | false => simp [renewFirst, hx, ih]
    | true => cases m <;> simp [renewFirst, hx, ih, Nat.succ_add]

theorem renewFirst_append {before : List Player} (idle : ∀ y ∈ before, y.hasActed = false) :
    renewFirst n (before ++ players) = before ++ renewFirst n players := by
  induction before with
  | nil => rfl
  | cons y before ih =>
    obtain ⟨hy, hbefore⟩ := List.forall_mem_cons.mp idle
    simp [renewFirst, hy, ih hbefore]

theorem renewFirst_all : renewFirst (players.countP (·.hasActed)) players = players.map Player.renewed := by
  induction players with
  | nil => rfl
  | cons x rest ih =>
    cases hx : x.hasActed with
    | false => simp [renewFirst, hx, ih, Player.renewed_of_not_hasActed]
    | true => simp [renewFirst, hx, ih]

end RenewFirst

namespace Records

theorem games_changePlayer (r : Records) (g : GameId) (p : PlayerId) (f : Player → Player) :
    (r.changePlayer g p f).games = r.games := by
  unfold changePlayer
  split <;> rfl

theorem games_changeGame {r r' : Records} (h : r.games = r'.games) (g : GameId) (f : Game → Game) :
    (r.changeGame g f).games = (r'.changeGame g f).games := by
  unfold changeGame
  rw [h]
  split
  · rfl
  · exact h

end Records

namespace World

/-- The players of the game who have acted in this generation. -/
def acted (w : World) : Nat := (w.records.roster w.game).countP (·.hasActed)

/-- How many of them will be renewed. -/
def renewals (w : World) : Nat :=
  if w.store.serves (Read.roster : Call) then
    Outage.granted (w.store.outages (Write.actions : Call)) w.acted
  else 0

theorem renewals_le (w : World) : w.renewals ≤ w.acted := by
  unfold renewals
  split
  · exact Outage.granted_le _ _
  · exact Nat.zero_le _

/-- The game is there, and the calls on it that start a generation get through. -/
structure CountsOn (w : World) (game : Game) : Prop where
  read : w.store.serves (Read.game : Call) = true
  there : w.records.game? w.game = some game
  written : w.store.serves (Write.generation : Call) = true

/-- How many generations have been counted and how many players renewed when the start of one fails. -/
inductive HaltsAt (w : World) : Nat → Nat → Prop
  | uncounted (refused : ∀ game, ¬ w.CountsOn game) : HaltsAt w 0 0
  | unread (game : Game) (counts : w.CountsOn game)
      (unread : w.store.serves (Read.roster : Call) = false) : HaltsAt w 1 0
  | renewing (game : Game) (counts : w.CountsOn game) (read : w.store.serves (Read.roster : Call) = true)
      (short : w.renewals < w.acted) : HaltsAt w 1 w.renewals

/-- So many generations have been counted and so many players renewed; all else is as it was. -/
structure TurnedOver (counted renewed : Nat) (w v : World) : Prop where
  session : v.session = w.session
  decks : v.store.decks = w.store.decks
  games : v.records.games = (w.records.changeGame w.game fun game =>
    { game with generation := game.generation + counted }).games
  rosters : ∀ g, v.records.roster g =
    if g = w.game then renewFirst renewed (w.records.roster g) else w.records.roster g

theorem TurnedOver.alike {counted renewed : Nat} {w v u : World} (h : w.TurnedOver counted renewed v)
    (h' : v.Alike u) : w.TurnedOver counted renewed u where
  session := h'.session.trans h.session
  decks := h'.store.decks.trans h.decks
  games := (congrArg Records.games h'.store.records).trans h.games
  rosters g := (congrArg (·.roster g) h'.store.records).trans (h.rosters g)

theorem Alike.turnedOver {w v : World} (h : w.Alike v) : w.TurnedOver 0 0 v where
  session := h.session
  decks := h.store.decks
  games := by
    rw [Records.changeGame_of_game? (u := fun game => { game with generation := game.generation + 0 })
      fun _ _ => rfl]
    exact congrArg Records.games h.store.records
  rosters g := by
    rw [renewFirst_zero, ite_self]
    exact congrArg (·.roster g) h.store.records

theorem TurnedOver.game? {counted renewed : Nat} {w v : World} {game : Game}
    (h : w.TurnedOver counted renewed v) (hgame : w.records.game? w.game = some game) :
    v.records.game? w.game = some { game with generation := game.generation + counted } := by
  show v.records.games.get? w.game = _
  rw [h.games]
  exact Records.game?_changeGame.trans (congrArg (Option.map _) hgame)

theorem TurnedOver.trans {counted counted' renewed renewed' : Nat} {w v u : World}
    (h : w.TurnedOver counted renewed v) (h' : v.TurnedOver counted' renewed' u) :
    w.TurnedOver (counted + counted') (renewed + renewed') u := by
  have hgame : v.game = w.game := congrArg Session.game h.session
  refine ⟨h'.session.trans h.session, h'.decks.trans h.decks, ?_, fun g => ?_⟩
  · rw [h'.games, hgame, Records.games_changeGame h.games, Records.changeGame_changeGame]
    simp only [Function.comp_def, Nat.add_assoc]
  · rw [h'.rosters, h.rosters, hgame]
    split
    · exact renewFirst_renewFirst ..
    · rfl

theorem TurnedOver.again {counted renewed : Nat} {w v u : World} (h : w.TurnedOver counted renewed v)
    (h' : v.TurnedOver 1 v.acted u) : w.TurnedOver (counted + 1) w.acted u := by
  have hgame : v.game = w.game := congrArg Session.game h.session
  have hlast := h.trans h'
  refine ⟨hlast.session, hlast.decks, hlast.games, fun g => ?_⟩
  rw [hlast.rosters]
  split
  · next hg =>
    have hall : v.acted = (renewFirst renewed (w.records.roster g)).countP (·.hasActed) := by
      rw [acted, hgame, h.rosters, if_pos rfl, hg]
    rw [← renewFirst_renewFirst, hall, renewFirst_all, renewed_renewFirst, ← renewFirst_all, hg]
    rfl
  · rfl

end World

namespace Engine

open World (Written SpendsOnly)

variable {w v u : World} {game : Game}

theorem update_outages (p : PlayerId) (f : PlayerField) (w : World) :
    (update p f w).2.store.outages = (w.store.call f.write).2.outages := by
  rw [← Store.updatePlayer_outages w.game p f w.store]
  show (onStore (Store.updatePlayer w.game p f) w).2.store.outages = _
  unfold onStore
  rcases Store.updatePlayer w.game p f w.store with ⟨_ | _, _⟩ <;> rfl

theorem renewActions_cons (x : Player) (rest : List Player) : renewActions (x :: rest) =
    if x.hasActed then do
      update x.id (.actions x.renewed.actions)
      renewActions rest
    else renewActions rest := rfl

theorem update_renewed {before rest : List Player} {x : Player}
    (hw : w.records.roster w.game = before ++ x :: rest)
    (hids : ((w.records.roster w.game).map (·.id)).Nodup) (idle : ∀ y ∈ before, y.hasActed = false)
    (acted : x.hasActed = true) (hs : w.store.serves (Write.actions : Call) = true) :
    ∃ u, update x.id (.actions x.renewed.actions) w = (.ok (), u) ∧ w.TurnedOver 0 1 u ∧
      u.store.outages (Write.actions : Call) = (Outage.next (w.store.outages (Write.actions : Call))).2 := by
  have hthere : w.player? x.id = some x := (find?_key_eq_some hids).mpr ⟨by rw [hw]; simp, rfl⟩
  obtain ⟨u, hu, hwritten, -⟩ := update_of_serves (f := .actions x.renewed.actions) hs hthere
  refine ⟨u, hu, ⟨hwritten.session, hwritten.decks, ?_, fun g => ?_⟩, ?_⟩
  · rw [hwritten.records, Records.games_changePlayer,
      Records.changeGame_of_game? (u := fun game => { game with generation := game.generation + 0 })
        fun _ _ => rfl]
  · rw [hwritten.records, Records.roster_changePlayer_there hw hids]
    split
    · next hg =>
      rw [hg, hw, renewFirst_append _ _ idle]
      simp [renewFirst, acted]
      rfl
    · rfl
  · have hleft := update_outages x.id (.actions x.renewed.actions) w
    rw [hu] at hleft
    rw [hleft]
    exact Store.call_outages ..

theorem renewActions_renewFirst {before players : List Player}
    (hw : w.records.roster w.game = before ++ players)
    (hids : ((w.records.roster w.game).map (·.id)).Nodup) (idle : ∀ y ∈ before, y.hasActed = false) :
    let acted := players.countP (·.hasActed)
    let granted := Outage.granted (w.store.outages (Write.actions : Call)) acted
    ∃ v, renewActions players w =
        (if granted = acted then .ok () else .error (.refused Store.unavailable true), v) ∧
      w.TurnedOver 0 granted v := by
  -- `before` are those whose turn is over, renewed or with nothing to renew
  induction players generalizing before w with
  | nil => exact ⟨w, rfl, (Std.Refl.refl w : w.Alike w).turnedOver⟩
  | cons x rest ih =>
    rw [renewActions_cons]
    cases hx : x.hasActed with
    | false =>
      have idle' : ∀ y ∈ before ++ [x], y.hasActed = false :=
        List.forall_mem_append.mpr ⟨idle, List.forall_mem_singleton.mpr hx⟩
      simpa [hx] using ih (hw.trans (by simp)) hids idle'
    | true =>
      dsimp only
      rw [if_pos rfl, List.countP_cons_of_pos hx, Outage.granted_succ, ← Store.serves_eq]
      cases hs : w.store.serves (Write.actions : Call) with
      | false =>
        obtain ⟨v, hv, ha⟩ := update_of_not_serves (f := .actions x.renewed.actions) x.id hs
        exact ⟨v, Steps.bind_apply_error hv, ha.turnedOver⟩
      | true =>
        obtain ⟨u, hu, hfirst, hleft⟩ := update_renewed hw hids idle hx hs
        have hgame : u.game = w.game := congrArg Session.game hfirst.session
        have hroster : u.records.roster u.game = renewFirst 1 (before ++ x :: rest) := by
          rw [hfirst.rosters, if_pos hgame, hgame, hw]
        have hw' : u.records.roster u.game = (before ++ [x.renewed]) ++ rest := by
          rw [hroster, renewFirst_append _ _ idle]
          simp [renewFirst, hx]
        have idle' : ∀ y ∈ before ++ [x.renewed], y.hasActed = false :=
          List.forall_mem_append.mpr ⟨idle, List.forall_mem_singleton.mpr x.hasActed_renewed⟩
        obtain ⟨v, hv, hrest⟩ := ih hw' (by rw [hroster, ids_renewFirst, ← hw]; exact hids) idle'
        rw [hleft] at hv hrest
        refine ⟨v, ?_, Nat.add_comm .. ▸ hfirst.trans hrest⟩
        rw [Steps.bind_apply_ok hu, hv]
        simp

theorem updateGame_of_serves {f : GameField} (hs : w.store.serves f.write = true)
    (hg : w.records.game? w.game = some game) : ∃ u, updateGame f w = (.ok (), u) ∧
      w.Becomes (w.records.changeGame w.game f.put) u ∧ SpendsOnly [(f.write : Call)] w u := by
  obtain ⟨u, hu, ha, hs⟩ := onStore_of_serves (fun _ => Store.changeGame w.game f.put) hs
  have hthere : Store.theGame w.game u.store = (.ok game, u.store) :=
    Store.theGame_eq_ok.mpr ⟨(congrArg (·.game? w.game) ha.store.records).trans hg, rfl⟩
  obtain ⟨t, ht, ho⟩ : ∃ t, Store.changeGame w.game f.put u.store = (.ok (), t) ∧
      t.outages = u.store.outages := ⟨_, Steps.bind_apply_ok hthere, rfl⟩
  obtain ⟨hr, hd⟩ := Store.changeGame_ok ht
  refine ⟨{ u with store := t }, ?_, ⟨ha.session, hd.trans ha.store.decks, ?_⟩, fun c hc => ?_⟩
  · refine (show _ = onStore (Store.updateGame w.game f) w from rfl).trans (hu.trans ?_)
    exact onStore_eq_ok.mpr ⟨t, ht, rfl⟩
  · exact hr.trans (congrArg (·.changeGame w.game f.put) ha.store.records)
  · exact (congrFun ho c).trans (hs c hc)

theorem updateGame_of_not_serves {f : GameField} (hs : w.store.serves f.write = false) :
    ∃ u, updateGame f w = (.error (.refused Store.unavailable true), u) ∧ World.Alike w u := by
  obtain ⟨u, hu, ha, -⟩ := onStore_of_not_serves (fun _ => Store.changeGame w.game f.put) hs
  exact ⟨u, hu, ha⟩

theorem advanceGeneration_of_not_countsOn (h : ∀ game, ¬ w.CountsOn game) :
    ∃ e v, advanceGeneration w = (.error (.refused e true), v) ∧ World.Alike w v := by
  rcases hread : readGame w with ⟨stop | game, u⟩
  · obtain ⟨e, t, -, rfl, rfl⟩ := onStore_eq_error.mp
      (show onStore (Store.readGame w.game) w = _ from hread)
    exact ⟨e, _, Steps.bind_apply_error hread, readGame_alike.apply hread⟩
  · obtain ⟨hg, ha⟩ := readGame_ok hread
    have hunwritten : u.store.serves (Write.generation : Call) = false := by
      have hspent : SpendsOnly [(Read.game : Call)] w u := by
        obtain ⟨u', hu', -, hspent⟩ := readGame_of_serves (serves_of_readGame hread) hg
        cases hread.symm.trans hu'
        exact hspent
      rw [hspent.serves (by simp)]
      by_contra hserves
      exact h game ⟨serves_of_readGame hread, hg, by simpa using hserves⟩
    obtain ⟨v, hv, hv'⟩ := updateGame_of_not_serves (f := .generation (game.generation + 1)) hunwritten
    refine ⟨_, v, (Steps.bind_apply_ok hread).trans (Steps.bind_apply_error hv), Trans.trans ha hv'⟩

theorem readRoster_of_serves (g : GameId) (hs : w.store.serves (Read.roster : Call) = true) :
    ∃ u, onStore (Store.readRoster g) w = (.ok (w.records.roster g), u) ∧ World.Alike w u ∧
      SpendsOnly [(Read.roster : Call)] w u := by
  obtain ⟨u, hu, ha, hs⟩ := onStore_of_serves (fun _ => do return (← Steps.read).roster g) hs
  refine ⟨u, (show _ = _ from hu).trans ?_, ha, hs⟩
  show (Except.ok (u.store.records.roster g), u) = _
  rw [ha.store.records]
  rfl

theorem advanceGeneration_counted (h : w.CountsOn game) :
    ∃ u, advanceGeneration w = (do
        renewActions (← onStore (Store.readRoster w.game))
        return game.generation + 1 : Engine Nat) u ∧
      w.TurnedOver 1 0 u ∧ SpendsOnly [(Read.game : Call), (Write.generation : Call)] w u := by
  obtain ⟨w₁, hread, ha, hspent₁⟩ := readGame_of_serves h.read h.there
  have hgame₁ : w₁.game = w.game := congrArg Session.game ha.session
  have hserves : w₁.store.serves (Write.generation : Call) = true :=
    (hspent₁.serves (by simp)).trans h.written
  have hthere : w₁.records.game? w₁.game = some game := by
    rw [hgame₁]
    exact (congrArg (·.game? w.game) ha.store.records).trans h.there
  obtain ⟨u, hwrite, hcounted, hspent₂⟩ :=
    updateGame_of_serves (f := .generation (game.generation + 1)) hserves hthere
  have hrecords : u.records = w.records.changeGame w.game fun game =>
      { game with generation := game.generation + 1 } := by
    rw [hcounted.records, hgame₁, show w₁.records = w.records from ha.store.records]
    refine Records.changeGame_congr fun game' hg' => ?_
    obtain rfl := Option.some.inj (h.there.symm.trans hg')
    rfl
  refine ⟨u, ?_, ?_, hspent₁.append hspent₂⟩
  · have hgame : u.session.game = w.game := hcounted.game.trans hgame₁
    refine (Steps.bind_apply_ok hread).trans ((Steps.bind_apply_ok hwrite).trans ?_)
    show (do renewActions (← onStore (Store.readRoster u.session.game)); _ : Engine Nat) u = _
    rw [hgame]
  · refine ⟨hcounted.session.trans ha.session, hcounted.decks.trans ha.store.decks,
      congrArg Records.games hrecords, fun g => ?_⟩
    rw [hrecords, Records.roster_changeGame]
    simp

theorem renewActions_turnedOver (h : w.TurnedOver 1 0 u)
    (hids : ((w.records.roster w.game).map (·.id)).Nodup) :
    let granted := Outage.granted (u.store.outages (Write.actions : Call)) w.acted
    ∃ v, renewActions (w.records.roster w.game) u =
        (if granted = w.acted then .ok () else .error (.refused Store.unavailable true), v) ∧
      w.TurnedOver 1 granted v := by
  have hroster : u.records.roster u.game = [] ++ w.records.roster w.game := by
    have hgame : u.game = w.game := congrArg Session.game h.session
    rw [h.rosters, if_pos hgame, renewFirst_zero, hgame]
    rfl
  have hids' : ((u.records.roster u.game).map (·.id)).Nodup := by
    rw [hroster]
    exact hids
  obtain ⟨v, hv, hrenewed⟩ := renewActions_renewFirst hroster hids' (by simp)
  have hall := h.trans hrenewed
  rw [Nat.zero_add] at hall
  exact ⟨v, hv, hall⟩

/-- A generation that can be counted is counted, and is started if the roster can be read and every player
who has acted can be renewed. -/
theorem advanceGeneration_of_countsOn (h : w.CountsOn game)
    (hids : ((w.records.roster w.game).map (·.id)).Nodup) :
    ∃ v, advanceGeneration w = (if w.store.serves (Read.roster : Call) ∧ w.renewals = w.acted
        then .ok (game.generation + 1) else .error (.refused Store.unavailable true), v) ∧
      w.TurnedOver 1 w.renewals v := by
  obtain ⟨w₁, hrun, hcounted, hspent₁⟩ := advanceGeneration_counted h
  have hserves : w₁.store.serves (Read.roster : Call) = w.store.serves (Read.roster : Call) :=
    hspent₁.serves (by simp)
  rw [hrun]
  cases hs : w.store.serves (Read.roster : Call) with
  | false =>
    obtain ⟨v, hv, ha, -⟩ := onStore_of_not_serves
      (fun _ => do return (← Steps.read).roster w.game) (hserves.trans hs)
    have hnone : w.renewals = 0 := if_neg (by simp [hs])
    refine ⟨v, ?_, hnone ▸ hcounted.alike ha⟩
    rw [if_neg (by simp)]
    exact Steps.bind_apply_error hv
  | true =>
    obtain ⟨w₂, hread, ha, hspent₂⟩ := readRoster_of_serves w.game (hserves.trans hs)
    obtain ⟨v, hv, hturned⟩ := renewActions_turnedOver (hcounted.alike ha) hids
    have hspent : SpendsOnly [(Read.game : Call), (Write.generation : Call), (Read.roster : Call)] w w₂ :=
      hspent₁.append hspent₂
    have hrenewals : w.renewals = Outage.granted (w₂.store.outages (Write.actions : Call)) w.acted := by
      rw [hspent _ (by simp)]
      exact if_pos hs
    have hroster : w₁.records.roster w.game = w.records.roster w.game := by
      rw [hcounted.rosters, renewFirst_zero, ite_self]
    rw [← hrenewals] at hv hturned
    refine ⟨v, ?_, hturned⟩
    rw [Steps.bind_apply_ok hread, hroster]
    by_cases hall : w.renewals = w.acted
    · rw [if_pos hall] at hv
      rw [if_pos ⟨rfl, hall⟩]
      exact Steps.bind_apply_ok hv
    · rw [if_neg hall] at hv
      rw [if_neg fun h => hall h.2]
      exact Steps.bind_apply_error hv

theorem advanceGeneration_cases {result : Except Stop Nat}
    (hids : ((w.records.roster w.game).map (·.id)).Nodup) (h : advanceGeneration w = (result, v)) :
    (∃ game, w.CountsOn game ∧ result = .ok (game.generation + 1) ∧ w.TurnedOver 1 w.acted v) ∨
    ∃ e counted renewed, result = .error (.refused e true) ∧ w.HaltsAt counted renewed ∧
      w.TurnedOver counted renewed v := by
  by_cases hcounts : ∃ game, w.CountsOn game
  · obtain ⟨game, hgame⟩ := hcounts
    obtain ⟨v', hrun, hturned⟩ := advanceGeneration_of_countsOn hgame hids
    rw [h] at hrun
    by_cases hall : w.store.serves (Read.roster : Call) ∧ w.renewals = w.acted
    · rw [if_pos hall] at hrun
      cases hrun
      exact .inl ⟨game, hgame, rfl, hall.2 ▸ hturned⟩
    · rw [if_neg hall] at hrun
      cases hrun
      refine .inr ⟨_, 1, w.renewals, rfl, ?_, hturned⟩
      cases hread : w.store.serves (Read.roster : Call) with
      | false =>
        have hnone : w.renewals = 0 := if_neg (by simp [hread])
        exact hnone ▸ .unread game hgame hread
      | true => exact .renewing game hgame hread (Nat.lt_of_le_of_ne w.renewals_le fun heq => hall ⟨hread, heq⟩)
  · have hnone : ∀ game, ¬ w.CountsOn game := not_exists.mp hcounts
    obtain ⟨e, v', hrun, ha⟩ := advanceGeneration_of_not_countsOn hnone
    cases h.symm.trans hrun
    exact .inr ⟨e, 0, 0, rfl, .uncounted hnone, ha.turnedOver⟩

theorem advanceGeneration_turnedOver {n : Nat} (hids : ((w.records.roster w.game).map (·.id)).Nodup)
    (h : advanceGeneration w = (.ok n, v)) :
    w.TurnedOver 1 w.acted v ∧ ∀ game, w.records.game? w.game = some game → n = game.generation + 1 := by
  obtain ⟨game, hgame, hn, hturned⟩ | ⟨e, _, _, he, -⟩ := advanceGeneration_cases hids h
  · refine ⟨hturned, fun game' hg' => ?_⟩
    obtain rfl := Option.some.inj (hgame.there.symm.trans hg')
    exact Except.ok.inj hn
  · cases he

/-- When the start of a generation fails, the generation may have been counted and the first players
renewed: all records are as they were exactly if the game could not be read or the count not be written.
Once it has been counted it stays so, and starting the generation again counts one more and renews
the players who are left. -/
theorem advanceGeneration_halts {stop : Stop} (hids : ((w.records.roster w.game).map (·.id)).Nodup)
    (h : advanceGeneration w = (.error stop, v)) : (∃ e, stop = .refused e true) ∧
      (v.records = w.records ↔ ∀ game, ¬ w.CountsOn game) ∧
      ∃ counted renewed, w.HaltsAt counted renewed ∧ w.TurnedOver counted renewed v ∧
        ∀ outages n u, advanceGeneration (v.withOutages outages) = (.ok n, u) →
          w.TurnedOver (counted + 1) w.acted u ∧
          ∀ game, w.records.game? w.game = some game → n = game.generation + (counted + 1) := by
  obtain ⟨_, -, hok, -⟩ | ⟨e, counted, renewed, hstop, hat, hturned⟩ := advanceGeneration_cases hids h
  · cases hok
  refine ⟨⟨e, Except.error.inj hstop⟩, ⟨fun hsame game hgame => ?_, fun hnone => ?_⟩, counted, renewed, hat, hturned, ?_⟩
  · -- the count is in the records, so they are not what they were
    have hcounted : 0 < counted := by
      cases hat with
      | uncounted refused => exact absurd hgame (refused game)
      | unread | renewing => exact Nat.one_pos
    have hmoved := hturned.game? hgame.there
    rw [hsame, hgame.there] at hmoved
    have := congrArg Game.generation (Option.some.inj hmoved)
    dsimp only at this
    omega
  · obtain ⟨e, v', hrun, ha⟩ := advanceGeneration_of_not_countsOn hnone
    cases h.symm.trans hrun
    exact ha.store.records
  · intro outages n u hu
    have hgame : v.game = w.game := congrArg Session.game hturned.session
    have hids' : ((v.records.roster v.game).map (·.id)).Nodup := by
      rw [hgame, hturned.rosters, if_pos rfl, ids_renewFirst]
      exact hids
    obtain ⟨hagain, hn⟩ := advanceGeneration_turnedOver (w := v.withOutages outages) hids' hu
    refine ⟨hturned.again ⟨hagain.session, hagain.decks, hagain.games, hagain.rosters⟩, fun game hg => ?_⟩
    have hg' := hturned.game? hg
    rw [← hgame] at hg'
    rw [hn _ hg']
    exact Nat.add_assoc ..

/-- All three have acted, and the second of them cannot be renewed at first. -/
def interrupted : World where
  store := {
    games := [("game", { id := "game" })]
    rosters := [("game", ["anna", "ben", "cora"].map fun p => { Player.named p with
      actions := [{ card := "mill", name := "Mill", index := 0, behavior := {}, plays := 1 }] })]
    outages := fun c => if c = .write .actions then [{ skip := 1, times := 1 }] else [] }
  session := { game := "game" }

theorem advanceGeneration_halts_interrupted :
    let v := (advanceGeneration interrupted).2
    interrupted.HaltsAt 1 1 ∧ interrupted.TurnedOver 1 1 v ∧ v.records ≠ interrupted.records := by
  intro v
  have hcounts : interrupted.CountsOn { id := "game" } := ⟨rfl, rfl, rfl⟩
  have h : (advanceGeneration interrupted).1 = .error (.refused Store.unavailable true) := rfl
  obtain ⟨-, hsame, counted, renewed, hat, hturned, -⟩ :=
    advanceGeneration_halts (w := interrupted) (by decide) (Prod.ext h rfl)
  refine ⟨.renewing _ hcounts rfl (by decide), ?_, fun hrecords => hsame.mp hrecords _ hcounts⟩
  cases hat with
  | uncounted refused => exact absurd hcounts (refused _)
  | unread _ _ unread => exact absurd unread (by decide)
  | renewing => exact hturned

/-- The generation, and how often each player has used each action in it. -/
def usesIn (w : World) : Option Nat × List (List Nat) :=
  ((w.records.game? w.game).map (·.generation),
    (w.records.roster w.game).map fun x => x.actions.map (·.plays))

/-- The call that fails has counted on to the second generation and renewed one player of three; when it
is made again, the third generation starts. -/
theorem advanceGeneration_skips :
    let first := advanceGeneration interrupted
    let second := advanceGeneration first.2
    usesIn interrupted = (some 1, [[1], [1], [1]]) ∧
      first.1 = .error (.refused Store.unavailable true) ∧ usesIn first.2 = (some 2, [[0], [1], [1]]) ∧
      second.1 = .ok 3 ∧ usesIn second.2 = (some 3, [[0], [0], [0]]) := by
  refine ⟨?_, rfl, ?_, rfl, ?_⟩ <;> decide +kernel

end Engine

end MarsRules
