import MarsRules.Proofs.Apart
import MarsRules.Proofs.Requests
import MarsRules.Registry

/-! Games side by side. Whatever a session does is confined to its game (`Ask.reply_apart`), so of
all that is asked of sessions that share a store each game sees only its own part. -/

namespace MarsRules

open Steps (Confined)

variable {g : GameId}

theorem Session.subscribeCard_game (s : Session) (p : PlayerId) (card : Card) :
    (s.subscribeCard p card).2.game = s.game := by
  unfold subscribeCard
  generalize hn : (0, s) = start
  have hstart : start.2.game = s.game := by rw [← hn]
  clear hn
  induction card.behaviors.zipIdx.filter (·.1.shape == .passive) generalizing start with
  | nil => exact hstart
  | cons b rest ih =>
    refine ih _ ?_
    dsimp only
    split
    · next heq => exact (heq ▸ Session.subscribe_game ..).trans hstart
    · next heq => exact (heq ▸ Session.subscribe_game ..).trans hstart

namespace Engine

/-- What is written of a game goes by that game, and changes nothing else. -/
def apartWriteLaw (g : GameId) (rules : Rules) : WriteLaw rules where
  holds := Apart g
  plays := (· = g)
  pure := .pure
  bind := .bind
  gameId h := gameId_bind (h g rfl)
  ofExcept := ofExcept_apart
  readGame := readGame_apart
  readPlayer _ := readPlayer_apart
  findCard := findCard_apart
  noted := Noted.Apart g
  noted_pure := .pure
  noted_bind := .bind
  noted_gameId h := Noted.gameId_bind (h g rfl)
  ofEngine := Noted.ofEngine_apart
  note _ := Noted.note_apart _
  brokenRange _ := .stop _
  update _ f _ := update_apart f
  updateGame := updateGame_apart
  addTiles _ _ _ hg := hg ▸ onStore_apart (Store.addTiles_apart _ _)
  subscribe owner e := changeSession_apart fun s => s.subscribe_game owner e
  transact hdrop := transact_apart (sameGame_of_own hdrop)

def apartLaw (g : GameId) (rules : Rules) : SessionLaw rules where
  toPlanLaw := (apartWriteLaw g rules).withDraws (fun _ => update_apart) Noted.note_apart
    (fun hg n => hg ▸ onStore_apart (Store.drawCards_apart n)) fun _ => changeSession_apart fun _ => rfl
  listeners _ _ h := session_apart.bind fun _ => h _
  isLive _ := session_apart.bind fun _ => .pure _
  outcome := outcome_apart
  tooDeep := .stop _
  orElse := orElse_apart
  readRoster hg := hg ▸ onStore_apart Store.readRoster_apart
  subscribeCard p card _ := session_apart.bind fun _ =>
    (changeSession_apart fun s => s.subscribeCard_game p card).bind fun _ => .pure _
  unsubscribe _ := changeSession_apart fun _ => rfl

theorem watchForced_apart (catalog : Catalog) (e : Event) : Apart g (watchForced catalog e) :=
  (apartLaw g {}).watchForced catalog e

theorem shutdown_apart : Apart g shutdown :=
  changeSession_apart fun s => by
    unfold Session.close
    split <;> rfl

end Engine

/-- What a session answers. -/
inductive Reply where
  | done
  | bonus (gained : ResourceSet)
  | generation (n : Nat)
  | triggered (did : Bool)
  | delivered (n : Nat)
  | subscribed (n : Nat)
deriving DecidableEq, Repr

/-- What is asked of one of several sessions: a request, or something of its bus or of what puts cards
into effect. -/
inductive Ask where
  | request (r : Request)
  | publish (e : Event)
  | apply (p : PlayerId) (card : Card) (choice : Option Nat) (target : Option CardId)
  | subscribe (p : PlayerId) (card : Card)
  | unsubscribe (card : CardId)

namespace Ask

def reply (book : Rulebook) : Ask → Engine Reply
  | request (.call (.act p (.place c))) => return .bonus (← Engine.place book p c)
  | request (.call .advanceGeneration) => return .generation (← Engine.advanceGeneration)
  | request (.trigger p) => return .triggered (← Engine.triggerForced book.catalog p)
  | request r => do
    r.run book
    return .done
  | publish e => return .delivered (← Engine.publish book e)
  | apply p card choice target => do
    Engine.applyCard book p card choice target
    return .done
  | subscribe p card => do
    let s ← Engine.session
    Engine.changeSession fun s => (s.subscribeCard p card).2
    return .subscribed (s.subscribeCard p card).1
  | unsubscribe card => do
    Engine.changeSession (·.unsubscribe card)
    return .done

end Ask

theorem SessionLaw.reply {book : Rulebook} (L : SessionLaw book.rules) {a : Ask}
    (hplace : ∀ p c, a = .request (.call (.act p (.place c))) → L.holds (Engine.place book p c))
    (hshutdown : a = .request (.call .shutdown) → L.holds Engine.shutdown) :
    L.holds (a.reply book) := by
  have hdone {r : Request} (hr : L.holds (r.run book)) :
      L.holds (do r.run book; return .done : Engine Reply) := L.bind hr fun _ => L.pure _
  cases a with
  | request r =>
    cases r with
    | call c =>
      cases c with
      | act p op =>
        cases op with
        | place c => exact L.bind (hplace p c rfl) fun _ => L.pure _
        | selectCorporation id => exact hdone (L.selectCorporation p id)
        | play r => exact hdone (L.bind (L.commitPlay p r) fun _ => L.announce _)
        | useAction card index choice target =>
          exact hdone (L.bind (L.commitUse p card index choice target) fun _ => L.announce _)
        | confirmDraw picked => exact hdone (L.bind (L.commitDraw p picked) fun _ => L.announce _)
      | canPlay p r => exact hdone (L.bind (L.checkPlay p book r) fun _ => L.pure _)
      | setTurn p => exact hdone (L.updateGame _)
      | setPhase phase => exact hdone (L.setPhase phase)
      | advanceGeneration => exact L.bind L.advanceGeneration fun _ => L.pure _
      | shutdown => exact hdone (hshutdown rfl)
    | trigger p => exact L.bind (L.triggerForced p _) fun _ => L.pure _
  | publish e => exact L.bind (L.publishWithin _ e) fun _ => L.pure _
  | apply p card choice target =>
    exact L.bind (L.bind (L.commitCard p card choice target) fun _ => L.announce _) fun _ => L.pure _
  | subscribe p card => exact L.subscribeCard p card Reply.subscribed
  | unsubscribe card => exact L.bind (L.unsubscribe card) fun _ => L.pure _

theorem Ask.reply_apart (book : Rulebook) (a : Ask) : Engine.Apart g (a.reply book) := by
  let L := Engine.apartLaw g book.rules
  refine L.reply (fun p c _ => L.place p fun {g'} hg tile owner => ?_) fun _ => Engine.shutdown_apart
  obtain rfl : g' = g := hg
  exact Engine.onStore_apart (Store.placeTile_apart c tile owner)

namespace Registry

def plays (r : Registry) (g : GameId) (handle : Handle) : Bool :=
  (r.sessions.map (·.game))[handle]? == some g

def ask (book : Rulebook) (handle : Handle) (a : Ask) (r : Registry) :
    Option (Except Stop Reply) × Registry :=
  match r.run handle (a.reply book) with
  | some (answer, r) => (some answer, r)
  | none => (none, r)

/-- Asks one thing after the other, each of some session, and keeps the answers. -/
def askAll (book : Rulebook) :
    List (Handle × Ask) → Registry → List (Handle × Option (Except Stop Reply)) × Registry
  | [], r => ([], r)
  | (handle, a) :: rest, r =>
    let (answer, r) := r.ask book handle a
    let (answers, r) := askAll book rest r
    ((handle, answer) :: answers, r)

/-- Registries that agree on a game: on its records and its deck, and on the sessions that play it. -/
structure AgreesOn (g : GameId) (r s : Registry) : Prop where
  store : r.store.AgreesOn g s.store
  games : r.sessions.map (·.game) = s.sessions.map (·.game)
  sessions : ∀ handle, r.plays g handle → r.sessions[handle]? = s.sessions[handle]?

variable {book : Rulebook} {r s : Registry} {handle : Handle} {a : Ask}

theorem plays_eq_true : r.plays g handle = true ↔
    ∃ session, r.sessions[handle]? = some session ∧ session.game = g := by
  simp [plays, Option.map_eq_some_iff]

theorem ask_eq {session : Session} (h : r.sessions[handle]? = some session) :
    r.ask book handle a = (some (a.reply book ⟨r.store, session⟩).1,
      { r with
        store := (a.reply book ⟨r.store, session⟩).2.store
        sessions := r.sessions.set handle (a.reply book ⟨r.store, session⟩).2.session }) := by
  unfold ask run
  rw [h]
  rfl

theorem ask_none (h : r.sessions[handle]? = none) : r.ask book handle a = (none, r) := by
  unfold ask run
  rw [h]
  rfl

theorem ask_games : (r.ask book handle a).2.sessions.map (·.game) = r.sessions.map (·.game) := by
  cases h : r.sessions[handle]? with
  | none => rw [ask_none h]
  | some session =>
    obtain ⟨hlt, rfl⟩ := List.getElem?_eq_some_iff.mp h
    have hgame := ((a.reply_apart book).within ⟨r.store, r.sessions[handle]⟩).game rfl
    rw [ask_eq h, List.map_set, hgame, ← List.map_set, List.set_getElem_self]

theorem sessions_ask_of_ne {other : Handle} (h : other ≠ handle) :
    (r.ask book handle a).2.sessions[other]? = r.sessions[other]? := by
  cases hs : r.sessions[handle]? with
  | none => rw [ask_none hs]
  | some session => rw [ask_eq hs, List.getElem?_set_ne h.symm]

theorem AgreesOn.ask_other (book : Rulebook) (a : Ask) (h : AgreesOn g r s)
    (hplays : r.plays g handle = false) :
    AgreesOn g (r.ask book handle a).2 s where
  store := by
    cases hs : r.sessions[handle]? with
    | none =>
      rw [ask_none hs]
      exact h.store
    | some session =>
      have hne : g ≠ session.game := fun hg =>
        Bool.false_ne_true (hplays.symm.trans (plays_eq_true.mpr ⟨session, hs, hg.symm⟩))
      have hx : Engine.Apart session.game (a.reply book) := a.reply_apart book
      have honly := (hx.within ⟨r.store, session⟩).store rfl
      have hreliable := (hx.alike ⟨r.store, session⟩ ⟨r.store, session⟩
        ⟨rfl, rfl, rfl, rfl, rfl, h.store.reliable.1, h.store.reliable.1⟩).2.store.reliable.1
      rw [ask_eq hs]
      exact ⟨(honly.games g hne).trans h.store.game, (honly.rosters g hne).trans h.store.roster,
        (honly.decks g hne).trans h.store.deck, hreliable, h.store.reliable.2⟩
  games := ask_games.trans h.games
  sessions other hother := by
    rw [Registry.plays, ask_games] at hother
    rw [sessions_ask_of_ne, h.sessions other hother]
    rintro rfl
    exact Bool.false_ne_true (hplays.symm.trans hother)

theorem AgreesOn.ask_own (book : Rulebook) (a : Ask) (h : AgreesOn g r s)
    (hplays : r.plays g handle = true) :
    (r.ask book handle a).1 = (s.ask book handle a).1 ∧
      AgreesOn g (r.ask book handle a).2 (s.ask book handle a).2 := by
  obtain ⟨session, hr, rfl⟩ := plays_eq_true.mp hplays
  have hs := (h.sessions handle hplays).symm.trans hr
  obtain ⟨hanswer, hafter⟩ := (a.reply_apart book).alike ⟨r.store, session⟩ ⟨s.store, session⟩
    ⟨rfl, rfl, h.store⟩
  refine ⟨by rw [ask_eq hr, ask_eq hs, hanswer], ?_, ask_games.trans (h.games.trans ask_games.symm),
    fun other hother => ?_⟩
  · rw [ask_eq hr, ask_eq hs]
    exact hafter.store
  · by_cases heq : other = handle
    · subst heq
      rw [ask_eq hr, ask_eq hs, hafter.session, List.getElem?_set_self, List.getElem?_set_self]
      · exact (List.getElem?_eq_some_iff.mp hs).1
      · exact (List.getElem?_eq_some_iff.mp hr).1
    · rw [Registry.plays, ask_games] at hother
      rw [sessions_ask_of_ne heq, sessions_ask_of_ne heq, h.sessions other hother]

theorem AgreesOn.askAll (h : AgreesOn g r s) (asks : List (Handle × Ask)) :
    (r.askAll book asks).1.filter (r.plays g ·.1) =
        (s.askAll book (asks.filter (r.plays g ·.1))).1 ∧
      AgreesOn g (r.askAll book asks).2 (s.askAll book (asks.filter (r.plays g ·.1))).2 := by
  induction asks generalizing r s with
  | nil => exact ⟨rfl, h⟩
  | cons x rest ih =>
    obtain ⟨handle, a⟩ := x
    have hplays : (r.ask book handle a).2.plays g = r.plays g := by
      funext other
      rw [Registry.plays, Registry.plays, ask_games]
    cases hp : r.plays g handle with
    | false =>
      have h' := ih (h.ask_other book a hp)
      rw [hplays] at h'
      simpa only [Registry.askAll, List.filter_cons, hp, Bool.false_eq_true, if_false] using h'
    | true =>
      obtain ⟨hanswer, hafter⟩ := h.ask_own book a hp
      have h' := ih hafter
      rw [hplays] at h'
      simp only [Registry.askAll, List.filter_cons, hp, if_true, hanswer]
      exact ⟨congrArg _ h'.1, h'.2⟩

theorem AgreesOn.refl (h : r.store.Reliable) (g : GameId) : AgreesOn g r r :=
  ⟨⟨rfl, rfl, rfl, h, h⟩, rfl, fun _ _ => rfl⟩

/-- However the operations of several sessions are interleaved, those of one game are answered as if
they were alone, and leave the same records, deck and sessions. What is asked of other games changes
nothing of this one, and triggers nothing in it. -/
theorem askAll_apart (book : Rulebook) (r : Registry) (h : r.store.Reliable)
    (asks : List (Handle × Ask)) (g : GameId) :
    let mine := asks.filter (r.plays g ·.1)
    (r.askAll book asks).1.filter (r.plays g ·.1) = (r.askAll book mine).1 ∧
      AgreesOn g (r.askAll book asks).2 (r.askAll book mine).2 ∧
      (mine = [] → AgreesOn g (r.askAll book asks).2 r) := by
  intro mine
  obtain ⟨hanswers, hagrees⟩ := (AgreesOn.refl h g).askAll asks
  refine ⟨hanswers, hagrees, fun hnone => ?_⟩
  have hnone : asks.filter (r.plays g ·.1) = [] := hnone
  rwa [hnone] at hagrees

/-- Two games with players, cards and effects of the same names, opened one after the other. -/
def sideBySide : Registry where
  store := {
    games := [("north", { id := "north" }), ("south", { id := "south" })]
    rosters := [("north", [.named "ada"]), ("south", [.named "ada"])]
    decks := [("north", ["ants", "birds"]), ("south", ["ants", "birds"])] }
  sessions := [(Session.new "north" false).watch, (Session.new "south" false).watch]
  opened := [("north", 0), ("south", 1)]

def greenhouse : Card where
  id := "greenhouse"
  name := "Greenhouse"
  type := .active
  behaviors := [.passive { kind := .temperatureRaise } [{ kind := .resource .plants, amount := 1 }]]

def neighbours : Rulebook := { catalog := ⟨[greenhouse]⟩, rules := {}, depth := 2 }

/-- Both put the card into effect; the south is warmed, of which the north is told as well. -/
def warmSouth : List (Handle × Ask) :=
  let warmer : Event := .parameterChanged .temperature { game := "south", before := -30, after := -28 }
  [(0, .subscribe "ada" greenhouse), (1, .subscribe "ada" greenhouse), (0, .publish warmer),
    (1, .publish warmer)]

theorem askAll_apart_warmSouth :
    let start : Registry := { store := sideBySide.store }
    (start.find "north" >>= fun (_, r) => r.find "south") = .ok (1, sideBySide) ∧
      sideBySide.store.Reliable ∧
      let mine := warmSouth.filter (sideBySide.plays "north" ·.1)
      (sideBySide.askAll neighbours warmSouth).1.filter (sideBySide.plays "north" ·.1) =
          (sideBySide.askAll neighbours mine).1 ∧
        AgreesOn "north" (sideBySide.askAll neighbours warmSouth).2
          (sideBySide.askAll neighbours mine).2 ∧
        (mine = [] → AgreesOn "north" (sideBySide.askAll neighbours warmSouth).2 sideBySide) :=
  have h : sideBySide.store.Reliable := fun _ _ ho => by cases ho
  ⟨rfl, h, askAll_apart neighbours sideBySide h warmSouth "north"⟩

/-- Both listeners are called, and only the one in the south has something to pay for. -/
example :
    let (answers, r) := sideBySide.askAll neighbours warmSouth
    let plants g := (r.store.roster g).map (·.resources.plants)
    answers.map (·.2) = [some (.ok (.subscribed 1)), some (.ok (.subscribed 1)),
      some (.ok (.delivered 1)), some (.ok (.delivered 1))] ∧
      plants "north" = [0] ∧ plants "south" = [1] := ⟨rfl, rfl, rfl⟩

end Registry

end MarsRules
