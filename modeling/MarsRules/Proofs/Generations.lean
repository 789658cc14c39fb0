import MarsRules.Proofs.Requests

/-! An action can be used once in a generation. What has been used stays used until the next generation
is started (`Records.Handling.hasUsed`), and then every action of every player is as good as new
(`Engine.advanceGeneration_ok`). -/

namespace MarsRules

/-- The record in the next generation: every action can be used again. -/
def Player.renewed (x : Player) : Player :=
  { x with actions := x.actions.map fun a => { a with plays := 0 } }

theorem Player.renewed_of_unused {x : Player} (h : ∀ a ∈ x.actions, a.plays = 0) : x.renewed = x := by
  have hsame (a : CardAction) (ha : a ∈ x.actions) : { a with plays := 0 } = a := by
    rw [← h a ha]
  unfold renewed
  rw [List.map_congr_left hsame, List.map_id']

namespace Engine

variable {w v : World}

theorem renewActions_ok {before players : List Player} (h : renewActions players w = (.ok (), v))
    (hw : w.records.roster w.game = before ++ players)
    (hids : ((before ++ players).map (·.id)).Nodup) :
    v.game = w.game ∧ ∀ g, v.records.roster g =
      if g = w.game then before ++ players.map Player.renewed else w.records.roster g := by
  induction players generalizing before w with
  | nil =>
    obtain ⟨-, rfl⟩ := Steps.pure_eq_ok.mp h
    refine ⟨rfl, fun g => ?_⟩
    split <;> simp_all
  | cons x rest ih =>
    have hfirst {u : World} (hu : renewActions rest u = (.ok (), v)) (hgame : u.game = w.game)
        (hroster : ∀ g, u.records.roster g =
          if g = w.game then before ++ x.renewed :: rest else w.records.roster g) :
        v.game = w.game ∧ ∀ g, v.records.roster g =
          if g = w.game then before ++ (x :: rest).map Player.renewed else w.records.roster g := by
      have hw' : u.records.roster u.game = (before ++ [x.renewed]) ++ rest := by
        rw [hroster, if_pos hgame, List.append_assoc]
        rfl
      have hids' : (((before ++ [x.renewed]) ++ rest).map (·.id)).Nodup := by
        simpa [Player.renewed] using hids
      obtain ⟨hgame', hrest⟩ := ih hu hw' hids'
      refine ⟨hgame'.trans hgame, fun g => ?_⟩
      rw [hrest g, hgame, hroster g]
      split <;> simp
    unfold renewActions at h
    split at h
    · obtain ⟨_, u, hu, h⟩ := Steps.bind_eq_ok.mp h
      obtain ⟨-, hs, hr, -⟩ := update_ok hu
      refine hfirst h (congrArg Session.game hs) fun g => ?_
      rw [hr, Entry.put, Records.roster_changePlayer_there hw (hw ▸ hids)]
      rfl
    · next hnone =>
      have hunused : ∀ a ∈ x.actions, a.plays = 0 := by simpa using hnone
      refine hfirst h rfl fun g => ?_
      rw [Player.renewed_of_unused hunused, ← hw]
      split <;> simp_all

theorem advanceGeneration_ok {n : Nat} (h : advanceGeneration w = (.ok n, v))
    (hids : ((w.records.roster w.game).map (·.id)).Nodup) (g : GameId) :
    v.records.roster g = if g = w.game then (w.records.roster g).map Player.renewed
      else w.records.roster g := by
  obtain ⟨game, w₁, hgame, h⟩ := Steps.bind_eq_ok.mp h
  obtain ⟨-, ha⟩ := readGame_ok hgame
  obtain ⟨_, w₂, hupdate, h⟩ := Steps.bind_eq_ok.mp h
  obtain ⟨hs, hr, -⟩ := updateGame_ok hupdate
  obtain ⟨_, w₃, hid, h⟩ := Steps.bind_eq_ok.mp h
  cases hid
  obtain ⟨players, x, hread, h⟩ := Steps.bind_eq_ok.mp h
  obtain ⟨store, hstore, rfl⟩ := onStore_eq_ok.mp hread
  obtain ⟨rfl, hsame⟩ := Store.readRoster_ok hstore
  obtain ⟨_, w₅, hrenew, h⟩ := Steps.bind_eq_ok.mp h
  obtain ⟨-, rfl⟩ := Steps.pure_eq_ok.mp h
  -- up to here only the number of the generation has changed
  have hgame : w₂.game = w.game := congrArg Session.game (hs.trans ha.session)
  have hroster (g : GameId) : store.records.roster g = w.records.roster g := by
    rw [hsame.records, show w₂.store.records = _ from hr, Records.roster_changeGame]
    exact congrArg (Records.roster · g) ha.store.records
  have hread : store.records.roster w₂.game = [] ++ w.records.roster w.game := by
    rw [hroster, hgame, List.nil_append]
  rw [← hsame.records, show store.records.roster w₂.session.game = _ from hread] at hrenew
  obtain ⟨-, hrenewed⟩ := renewActions_ok hrenew hread hids
  rw [hrenewed g]
  show (if g = w₂.game then _ else store.records.roster g) = _
  rw [hgame, hroster]
  split
  · next hg => subst hg; rfl
  · rfl

end Engine

section HasUsed

variable {card : CardId} {index : Nat}

/-- The action that answers to this key has been used in this generation. -/
def Player.HasUsed (x : Player) (card : CardId) (index : Nat) : Prop :=
  ∃ a, x.action? card index = some a ∧ a.plays ≠ 0

theorem Player.HasUsed.of_actions {x y : Player} (hx : x.HasUsed card index)
    (h : y.actions = x.actions) : y.HasUsed card index := by
  unfold HasUsed action?
  rw [h]
  exact hx

theorem Player.action?_isFor {x : Player} {a : CardAction} (h : x.action? card index = some a) :
    a.card = card ∧ a.index = index := by
  unfold action? at h
  simpa [CardAction.isFor] using List.find?_some h

theorem Player.findAction_ok {x : Player} {a : CardAction} (h : x.findAction card index = .ok a) :
    x.action? card index = some a ∧ a.plays = 0 := by
  unfold findAction at h
  split at h
  · cases h
  · next b hb =>
    split at h
    · next havailable =>
      cases h
      exact ⟨hb, by simpa [CardAction.isAvailable] using havailable⟩
    · cases h

theorem Plan.find?_useUp {actions more written : List CardAction} {used : Option (CardId × Nat)}
    {a : CardAction} (h : useUp (actions ++ more) used = .ok written)
    (ha : actions.find? (·.isFor card index) = some a) :
    ∃ b, written.find? (·.isFor card index) = some b ∧ a.plays ≤ b.plays := by
  have hfound : (actions ++ more).find? (·.isFor card index) = some a := by
    rw [List.find?_append, ha, Option.some_or]
  unfold useUp at h
  split at h
  · cases h
    exact ⟨a, hfound, Nat.le_refl _⟩
  · next card' index' =>
    split at h
    · cases h
      rcases find?_changeFirst_of_same (p := (·.isFor card' index')) (q := (·.isFor card index))
        (f := fun a => { a with plays := a.plays + 1 }) (fun _ _ => rfl) (actions ++ more)
        with hsame | ⟨b, -, hb, hchanged⟩
      · exact ⟨a, hsame.trans hfound, Nat.le_refl _⟩
      · obtain rfl := Option.some.inj (hfound.symm.trans hb)
        exact ⟨_, hchanged, Nat.le_succ _⟩
    · cases h

theorem Plan.find?_used {actions written : List CardAction}
    (h : useUp actions (some (card, index)) = .ok written) :
    ∃ b, written.find? (·.isFor card index) = some b ∧ b.plays ≠ 0 := by
  unfold useUp at h
  dsimp only at h
  split at h
  · next hany =>
    cases h
    obtain ⟨a, ha⟩ := Option.isSome_iff_exists.mp (List.find?_isSome.mpr (List.any_eq_true.mp hany))
    have hchanged := find?_changeFirst (p := (·.isFor card index))
      (f := fun a => { a with plays := a.plays + 1 }) (fun _ hb => hb) actions
    rw [ha, Option.map_some] at hchanged
    exact ⟨_, hchanged, Nat.succ_ne_zero _⟩
  · cases h

theorem Player.Handling.hasUsed {board : Board} {request : Request} {x y : Player}
    (h : x.Handling board request y) (hrequest : request ≠ .call .advanceGeneration)
    (hx : x.HasUsed card index) : y.HasUsed card index := by
  cases h with
  | aside id hactions => exact hx.of_actions hactions
  | act written =>
    obtain ⟨a, ha, hplays⟩ := hx
    obtain ⟨b, hb, hle⟩ := Plan.find?_useUp written ha
    exact ⟨b, hb, by omega⟩
  | renew asked => exact absurd asked hrequest
  | offer => exact hx
  | queue source tiles => exact hx.of_actions (withTiles_actions _ _ _ _)

/-- A player of the game has used the action in this generation. -/
def Records.HasUsed (r : Records) (g : GameId) (p : PlayerId) (card : CardId) (index : Nat) : Prop :=
  ∃ x, r.player? g p = some x ∧ x.HasUsed card index

namespace Records

variable {r r' : Records} {g : GameId} {p : PlayerId} {x y : Player}

theorem HasUsed.changePlayer (h : r.HasUsed g p card index) (there : r.player? g x.id = some x)
    (hid : y.id = x.id) (hy : x.HasUsed card index → y.HasUsed card index) :
    (r.changePlayer g x.id fun _ => y).HasUsed g p card index := by
  obtain ⟨z, hz, hused⟩ := h
  by_cases hp : p = x.id
  · obtain rfl := Option.some.inj (there.symm.trans (hp ▸ hz))
    exact ⟨y, by rw [player?_changePlayer_there there hid, if_pos hp], hy hused⟩
  · exact ⟨z, by rw [player?_changePlayer_there there hid, if_neg hp, hz], hused⟩

theorem HasUsed.changeGame (h : r.HasUsed g p card index) (u : Game → Game) :
    (r.changeGame g u).HasUsed g p card index := by
  obtain ⟨x, hx, hused⟩ := h
  exact ⟨x, (player?_changeGame u).trans hx, hused⟩

theorem Handling.hasUsed {request : Request} (h : r.Handling g request r')
    (hrequest : request ≠ .call .advanceGeneration) (hr : r.HasUsed g p card index) :
    r'.HasUsed g p card index := by
  cases h with
  | player played there step => exact hr.changePlayer there step.id_eq (step.hasUsed hrequest)
  | game board => exact hr.changeGame _
  | place asked there =>
    refine (hr.changeGame _).changePlayer ((player?_changeGame _).trans there)
      (Player.advance_id _ _) fun hx => ?_
    exact Player.HasUsed.of_actions hx (Player.advance_actions _ _)

theorem Handling.ids {request : Request} (h : r.Handling g request r') :
    (r'.roster g).map (·.id) = (r.roster g).map (·.id) := by
  cases h with
  | player played there step => exact ids_changePlayer fun _ _ => step.id_eq
  | game board => exact congrArg (List.map _) (roster_changeGame _ g)
  | place =>
    refine (ids_changePlayer fun _ _ => ?_).trans (congrArg (List.map _) (roster_changeGame _ g))
    exact Player.advance_id _ _

end Records

end HasUsed

namespace Engine

variable {book : Rulebook} {p : PlayerId} {card : CardId} {index : Nat} {choice : Option Nat}
  {target : Option CardId} {w v : World}

theorem useAction_hasUsed (h : useAction book p card index choice target w = (.ok (), v)) :
    ¬ w.records.HasUsed w.game p card index ∧ v.records.HasUsed v.game p card index := by
  obtain ⟨events, u, hcommit, hannounce⟩ := Steps.bind_eq_ok.mp h
  obtain ⟨player, action, plan, board, actions, hp, hfound, hplan, hused, -, hreached⟩ :=
    commitUse_reached hcommit
  obtain rfl := World.player?_id hp
  obtain ⟨haction, hunused⟩ := Player.findAction_ok hfound
  refine ⟨?_, ?_⟩
  · rintro ⟨x, hx, a, ha, hplays⟩
    obtain rfl := Option.some.inj (hp.symm.trans hx)
    obtain rfl := Option.some.inj (haction.symm.trans ha)
    exact hplays hunused
  · have hkey : plan.used = some (card, index) := by
      obtain ⟨hcard, hindex⟩ := Player.action?_isFor haction
      rw [(Plan.ofAction_gains hplan).2, hcard, hindex]
    rw [hkey] at hused
    have hcommitted : u.records.HasUsed u.game player.id card index := by
      have hu := hreached.player?
      rw [Plan.reached_player] at hu
      exact ⟨_, hu, Plan.find?_used hused⟩
    -- what listeners do is nothing that was asked for, so any other request may stand for it
    have hrest : World.Handled (.call .shutdown) u v := (announce_handled book events).apply hannounce
    rw [hrest.game]
    exact hrest.keeps (fun _ _ hstep => hstep.hasUsed nofun) hcommitted

end Engine

/-- The request was a use of this action, and it has succeeded. -/
def Made.uses (m : Made) (p : PlayerId) (card : CardId) (index : Nat) : Bool :=
  match m.request, m.result with
  | .call (.act q (.useAction card' index' _ _)), .ok () => q == p && card' == card && index' == index
  | _, _ => false

theorem Made.uses_eq_true {m : Made} {p : PlayerId} {card : CardId} {index : Nat}
    (h : m.uses p card index = true) :
    ∃ choice target, m.request = .call (.act p (.useAction card index choice target)) ∧
      m.result = .ok () := by
  unfold uses at h
  split at h
  · next q card' index' choice target hrequest hresult =>
    simp only [Bool.and_eq_true, beq_iff_eq] at h
    obtain ⟨⟨rfl, rfl⟩, rfl⟩ := h
    exact ⟨choice, target, hrequest, hresult⟩
  · cases h

namespace Log

variable {book : Rulebook} {w₀ w : World} {made : List Made}

theorem countP_uses {p : PlayerId} {card : CardId} {index : Nat} (h : Log book w₀ made w)
    (within : ∀ m ∈ made, m.request ≠ .call .advanceGeneration) :
    made.countP (·.uses p card index) = 0 ∨ made.countP (·.uses p card index) = 1 ∧
      w.records.HasUsed w.game p card index := by
  induction h with
  | start => exact .inl rfl
  | @next made w h m outages before run finished ih =>
    have hw := ih fun m' hm' => within m' (List.mem_append_left _ hm')
    have hrequest : m.request ≠ .call .advanceGeneration := within m (by simp)
    rw [List.countP_append, List.countP_singleton]
    cases huses : m.uses p card index with
    | false =>
      refine hw.imp id fun ⟨hone, hused⟩ => ⟨hone, ?_⟩
      have hhandled := Request.run_handled run finished
      have hbefore : m.before.records.HasUsed m.before.game p card index := by rw [before]; exact hused
      rw [hhandled.game]
      exact hhandled.keeps (fun _ _ hstep => hstep.hasUsed hrequest) hbefore
    | true =>
      obtain ⟨choice, target, hm, hok⟩ := Made.uses_eq_true huses
      rw [hm, hok] at run
      obtain ⟨hunused, hused⟩ := Engine.useAction_hasUsed run
      rw [before] at hunused
      refine .inr ⟨?_, hused⟩
      rw [hw.resolve_right fun ⟨_, hused⟩ => hunused hused, if_pos rfl]

/-- Between one start of a generation and the next, each action of a player is used once at most. The
use of an action that is refused leaves all games and players as they were. The start of a generation
makes every action of every player of the game usable again, and nothing else becomes of the players. -/
theorem uses_once (h : Log book w₀ made w)
    (hids : ((w₀.records.roster w₀.game).map (·.id)).Nodup) :
    (∀ before within after p card index, made = before ++ within ++ after →
      (∀ m ∈ within, m.request ≠ .call .advanceGeneration) →
        within.countP (·.uses p card index) ≤ 1) ∧
    (∀ m ∈ made, ∀ p card index choice target,
      m.request = .call (.act p (.useAction card index choice target)) → m.result ≠ .ok () →
        m.after.store.games = m.before.store.games ∧
        m.after.store.rosters = m.before.store.rosters) ∧
    ∀ m ∈ made, m.request = .call .advanceGeneration → m.result = .ok () →
      (∀ x ∈ m.after.records.roster w₀.game, ∀ a ∈ x.actions, a.plays = 0) ∧
      ∀ g, m.after.records.roster g =
        if g = w₀.game then (m.before.records.roster g).map Player.renewed
        else m.before.records.roster g := by
  refine ⟨fun before within after p card index hmade hwithin => ?_,
    fun m hm p card index choice target hrequest hresult => ?_, fun m hm hrequest hresult => ?_⟩
  · obtain ⟨u, hu, -⟩ := (hmade ▸ h).split
    obtain ⟨_, -, hbetween⟩ := hu.split
    rcases hbetween.countP_uses hwithin with hnone | ⟨hone, -⟩
    · exact hnone ▸ Nat.zero_le 1
    · exact Nat.le_of_eq hone
  · obtain ⟨-, -, -, -, -, run, finished⟩ := h.of_mem hm
    rcases hr : m.result with stop | _
    · obtain ⟨e, rfl⟩ := finished stop hr
      rw [hrequest, hr] at run
      have hreverts := (Engine.commitUse_reverts book.rules p card index choice target
        m.before).bind_neverRefuses (Engine.announce_neverRefuses book)
      exact (hreverts e m.after run).tables
    · exact absurd hr hresult
  · obtain ⟨earlier, u, hu, hgame, hrecords, run, -⟩ := h.of_mem hm
    obtain ⟨hu, hids⟩ := hu.keeps (I := fun r => ((r.roster w₀.game).map (·.id)).Nodup)
      (fun _ _ _ _ hstep hr => hstep.ids ▸ hr) hids
    rw [hrequest, hresult] at run
    obtain ⟨n, v, hadvance, hv⟩ := Steps.bind_eq_ok.mp run
    obtain ⟨-, rfl⟩ := Steps.pure_eq_ok.mp hv
    have hgame : m.before.game = w₀.game := hgame.trans hu
    have hrenewed := Engine.advanceGeneration_ok hadvance (by rw [hrecords, hgame]; exact hids)
    rw [hgame] at hrenewed
    refine ⟨fun x hx a ha => ?_, hrenewed⟩
    rw [hrenewed, if_pos rfl] at hx
    obtain ⟨y, -, rfl⟩ := List.mem_map.mp hx
    obtain ⟨b, -, rfl⟩ := List.mem_map.mp ha
    rfl

/-- An action that gives titanium. -/
def smelter : CardAction where
  card := "smelter"
  name := "Smelter"
  index := 0
  behavior := .manual [] [{ kind := .resource .titanium, amount := 1 }]

def smelting : Rulebook where
  catalog := {}
  rules := {}
  depth := 8

/-- A player who has the same action twice. -/
def foundry : World where
  store := {
    games := [("game", { id := "game" })]
    rosters := [("game", [{ Player.named "player" with actions := [smelter, smelter] }])] }
  session := { game := "game" }

def smelt : Request := .call (.act "player" (.useAction "smelter" 0 none none))

def titaniumDown (c : Call) : List Outage := if c = .write .resources then [{ times := 1 }] else []

def spilled : Made := .of smelting smelt (foundry.withOutages titaniumDown)

def smelted : Made := .of smelting smelt (spilled.after.withOutages fun _ => [])

/-- The other action with the same key is not found. -/
def refusedSmelt : Made := .of smelting smelt (smelted.after.withOutages fun _ => [])

def renewedFoundry : Made :=
  .of smelting (.call .advanceGeneration) (refusedSmelt.after.withOutages fun _ => [])

theorem foundry_log :
    Log smelting foundry [spilled, smelted, refusedSmelt, renewedFoundry] renewedFoundry.after ∧
      spilled.result = .error (.refused Store.unavailable true) ∧ smelted.result = .ok () ∧
      refusedSmelt.result ≠ .ok () ∧ renewedFoundry.result = .ok () := by
  have hspilled : spilled.result = .error (.refused Store.unavailable true) := by decide +kernel
  have hsmelted : smelted.result = .ok () := by decide +kernel
  have hrefused : refusedSmelt.result = .error (.refused (.invalidAction
    "action on Smelter already played this generation") true) := by decide +kernel
  have hrenewed : renewedFoundry.result = .ok () := by decide +kernel
  have hlog : Log smelting foundry [spilled] spilled.after :=
    Log.start.step titaniumDown (.of_refused hspilled)
  have hlog : Log smelting foundry [spilled, smelted] smelted.after := hlog.step _ (.of_ok hsmelted)
  have hlog : Log smelting foundry [spilled, smelted, refusedSmelt] refusedSmelt.after :=
    hlog.step _ (.of_refused hrefused)
  refine ⟨hlog.step _ (.of_ok hrenewed), hspilled, hsmelted, ?_, hrenewed⟩
  rw [hrefused]
  nofun

/-- The first use is refused, the second is made and the third is refused again; then the player can go
on. -/
theorem uses_once_foundry : ∃ made w, Log smelting foundry made w ∧
    (made.take 3).countP (·.uses "player" "smelter" 0) = 1 ∧
    spilled.after.store.rosters = spilled.before.store.rosters ∧
    refusedSmelt.after.store.rosters = refusedSmelt.before.store.rosters ∧
    renewedFoundry.after.records.roster "game" =
      (renewedFoundry.before.records.roster "game").map Player.renewed := by
  obtain ⟨hlog, hspilled, hsmelted, hrefused, hrenewed⟩ := foundry_log
  have hids : ((foundry.records.roster foundry.game).map (·.id)).Nodup := by decide
  obtain ⟨honce, hunchanged, hrenew⟩ := uses_once hlog hids
  have hused : smelted.uses "player" "smelter" 0 = true := by
    unfold Made.uses
    rw [hsmelted]
    rfl
  have hmost := honce [] [spilled, smelted, refusedSmelt] [renewedFoundry] "player" "smelter" 0 rfl
    (by simp [spilled, smelted, refusedSmelt, Made.of, smelt])
  have hleast : 0 < [spilled, smelted, refusedSmelt].countP (·.uses "player" "smelter" 0) :=
    List.countP_pos_iff.mpr ⟨smelted, by simp, hused⟩
  have hspilled : spilled.result ≠ .ok () := by rw [hspilled]; nofun
  refine ⟨_, _, hlog, Nat.le_antisymm hmost hleast, ?_, ?_, ?_⟩
  · exact (hunchanged spilled (by simp) _ _ _ _ _ rfl hspilled).2
  · exact (hunchanged refusedSmelt (by simp) _ _ _ _ _ rfl hrefused).2
  · exact (hrenew renewedFoundry (by simp) rfl hrenewed).2 "game"

end Log

end MarsRules
