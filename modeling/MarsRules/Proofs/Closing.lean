import MarsRules.Proofs.Boards
import MarsRules.Proofs.Closed
import MarsRules.Proofs.Watching

/-! Handles that outlive their session. A session stays in use after it has been closed, so a game has
one session only as long as nobody asks anything of a closed one that writes or subscribes
(`Registry.serialized`). -/

namespace MarsRules

open Steps (Keeps)

/-- Nothing is subscribed, and nothing is left over for a card to drop. -/
structure Session.Silent (s : Session) : Prop where
  filed : s.Filed
  nobody : s.bus.subscriptions = []

namespace Session

variable {s t : Session} {owner : PlayerId} {card : Card}

theorem Same.silent (h : s.Same t) (hs : s.Silent) : t.Silent := ⟨h.filed hs.filed, h.bus ▸ hs.nobody⟩

theorem Silent.unsubscribe (h : s.Silent) (card : CardId) : (s.unsubscribe card).Silent :=
  ⟨h.filed.unsubscribe card, by rw [h.filed.subscriptions_unsubscribe, h.nobody]; rfl⟩

theorem close_game (s : Session) : s.close.game = s.game := by
  unfold close
  split <;> rfl

theorem closed_close (s : Session) : s.close.closed = true := by
  unfold close
  split
  · next h => exact h
  · rfl

theorem silent_close (h : s.closed = true → s.Silent) : s.close.Silent := by
  unfold close
  split
  · next hclosed => exact h hclosed
  · exact ⟨⟨nofun, nofun, nofun⟩, rfl⟩

theorem open_of_start {store : Store} {game : GameId} {recording : Bool}
    (h : start store game recording = .ok s) : s.closed = false := by
  unfold start at h
  split at h
  · cases h
    rfl
  · cases h

theorem Rewound.silent (h : Rewound owner card.id card.effects s t) (hs : s.Silent) : t.Silent := by
  rcases h with h | h
  · exact h.silent hs
  · have hfiled : (s.listen owner card.effects).Filed := hs.filed.listen
    refine h.silent ⟨hfiled.unsubscribe card.id, ?_⟩
    rw [hfiled.subscriptions_unsubscribe, List.filter_eq_nil_iff]
    intro sub hsub
    have hhandler : sub.handler ∈ (card.effects.filter (·.listens)).map (.effect owner) := by
      simpa [hs.nobody, handlers_listen] using List.mem_map_of_mem (f := (·.handler)) hsub
    obtain ⟨e, he, heq⟩ := List.mem_map.mp hhandler
    simp [← heq, Listener.effect?, Card.card_of_mem_effects (List.mem_filter.mp he).1]

end Session

/-- The records are left alone, and silence is. -/
structure World.Untouched (w v : World) : Prop where
  records : v.records = w.records
  silent : w.session.Silent → v.session.Silent

namespace World

variable {w v : World}

theorem Restored.untouched (h : Restored w v) (hs : w.session.Same v.session) : Untouched w v :=
  ⟨h.records, hs.silent⟩

theorem Alike.untouched (h : Alike w v) : Untouched w v := h.restored.untouched h.quiet.same

end World

namespace Engine

variable {w v : World} {book : Rulebook} {p : PlayerId}

theorem publishWithin_of_silent (h : w.session.Silent) (depth : Nat) (e : Event) :
    (publishWithin book depth e w).2 = w := by
  cases depth with
  | zero => rfl
  | succ depth =>
    rw [publishWithin_succ]
    show (Bus.deliver isLive _ (w.session.bus.listeners e.kind) w).2 = w
    rw [Bus.listeners, h.nobody]
    rfl

theorem updateGame_reverts (f : GameField) : Reverts (updateGame f) :=
  fun _ _ _ h => (updateGame_error h).restored

theorem setPhase_reverts (book : Rulebook) (phase : GamePhase) : Reverts (setPhase book phase) :=
  Reverts.bind_of_alike readGame_alike fun _ _ _ _ =>
    (updateGame_reverts _ _).bind_neverRefuses fun _ =>
      gameId_neverRefuses.bind fun _ => announce_neverRefuses book _

end Engine

namespace Ask

/-- It writes no records and subscribes nothing. -/
def isIdle : Ask → Bool
  | request (.call (.canPlay _ _)) | request (.call .shutdown) | publish _ | unsubscribe _ => true
  | _ => false

/-- What it has written by the time it is refused is put back. -/
def isAtomic : Ask → Bool
  | request (.call (.act _ (.play _))) | request (.call (.act _ (.useAction _ _ _ _)))
  | request (.call (.act _ (.place _))) | request (.call (.setTurn _)) | request (.call (.setPhase _))
  | apply _ _ _ _ => true
  | _ => false

variable {book : Rulebook} {a : Ask} {answer : Except Stop Reply} {w v : World}

theorem untouched_of_idle (ha : a.isIdle) (silent : w.session.Silent) (h : a.reply book w = (answer, v)) :
    w.Untouched v := by
  unfold isIdle at ha
  split at ha
  · next p r =>
    have hcheck : Keeps World.Alike (reply book (request (.call (.canPlay p r)))) :=
      ((Engine.checkPlay_alike book p r).bind fun _ => Keeps.pure _).bind fun _ => Keeps.pure _
    exact (hcheck.apply h).untouched
  · cases h
    exact ⟨rfl, fun hs => Session.silent_close fun _ => hs⟩
  · next e =>
    have hpublish : (Engine.publish book e w).2 = w := Engine.publishWithin_of_silent silent _ e
    have hv : v = w := by
      rcases Steps.bind_cases h with ⟨stop, hstop, -⟩ | ⟨n, u, hn, h⟩
      · rwa [hstop] at hpublish
      · rw [hn] at hpublish
        cases h
        exact hpublish
    exact hv ▸ ⟨rfl, id⟩
  · next card =>
    cases h
    exact ⟨rfl, fun hs => hs.unsubscribe card⟩
  · cases ha

theorem untouched_of_refused (ha : a.isAtomic) {e : Refusal}
    (h : a.reply book w = (.error (.refused e true), v)) : w.Untouched v := by
  have hrun {α : Type} {x : Engine α} {f : α → Reply}
      (h : (do return f (← x) : Engine Reply) w = (.error (.refused e true), v)) :
      x w = (.error (.refused e true), v) := by
    rcases Steps.bind_eq_error.mp h with h | ⟨_, _, _, h⟩
    · exact h
    · cases h
  unfold isAtomic at ha
  split at ha
  · next p r =>
    have hcommit := Engine.refused_of_announce (hrun (f := fun _ => .done) h)
    have hrestored := Engine.commitPlay_reverts book p r w e v hcommit
    refine ⟨hrestored.records, fun hs => ?_⟩
    rcases Engine.commitPlay_rewound hcommit with hsame | ⟨card, -, hrewound⟩
    · exact hsame.silent hs
    · exact hrewound.silent hs
  · next p card index choice target =>
    have huse := hrun (f := fun _ => .done) h
    have hcommit := Engine.refused_of_announce huse
    exact (Engine.commitUse_reverts _ p card index choice target w e v hcommit).untouched
      ((Engine.useAction_quiet book p card index choice target).apply huse).same
  · next p c =>
    have hplace := hrun h
    refine World.Restored.untouched ?_ ((Engine.place_quiet book p c).apply hplace).same
    refine ((Engine.commitPlacement_reverts book.rules p c w).bind_neverRefuses ?_) e v hplace
    exact fun _ => (Engine.announce_neverRefuses book _).bind fun _ => Steps.StopsOnly.pure _
  · exact (Engine.updateGame_error (hrun (f := fun _ => .done) h)).untouched
  · next phase =>
    have hphase := hrun (f := fun _ => .done) h
    exact (Engine.setPhase_reverts book phase w e v hphase).untouched
      ((Engine.setPhase_sameListeners book phase).apply hphase)
  · next p card choice target =>
    have hcommit := Engine.refused_of_announce (hrun (f := fun _ => .done) h)
    exact ⟨(Engine.commitCard_reverts _ p card choice target w e v hcommit).records,
      (Engine.commitCard_rewound hcommit).silent⟩
  · cases ha

end Ask

theorem Ask.reply_closed {book : Rulebook} {a : Ask} {answer : Except Stop Reply} {w v : World}
    (h : a.reply book w = (answer, v)) : v.session.closed = w.session.closed ∨
      a = .request (.call .shutdown) ∧ v.session = w.session.close := by
  by_cases ha : a = .request (.call .shutdown)
  · subst ha
    cases h
    exact .inr ⟨rfl, rfl⟩
  · exact .inl (Steps.Heedless.run (fun b => reply_heedless book ha) h).1

namespace Registry

/-- Something that was asked through a handle, which handle was on file for the game just then, and what
the session and the store were before and after. -/
structure Asked where
  handle : Handle
  onFile : Option Handle
  book : Rulebook
  ask : Ask
  answer : Except Stop Reply
  before : World
  after : World

namespace Asked

/-- The records of a game are not what they were. -/
def Changes (x : Asked) (g : GameId) : Prop :=
  ¬ (x.after.store.games.get? g = x.before.store.games.get? g ∧
    x.after.store.rosters.get? g = x.before.store.rosters.get? g)

/-- Nothing was to be written or subscribed, or it was refused and all of it put back. -/
def Harmless (x : Asked) : Prop :=
  x.ask.isIdle ∨ x.ask.isAtomic ∧ ∃ e, x.answer = .error (.refused e true)

/-- What was changed was asked through the handle on file, and asking through another has left no
subscription. -/
structure Serial (x : Asked) : Prop where
  onFile : ∀ g, x.Changes g → x.onFile = some x.handle
  nobody : x.onFile ≠ some x.handle → x.after.session.bus.subscriptions = []

end Asked

/-- What comes of asking the session under a handle. -/
def asked (s : Registry) (book : Rulebook) (handle : Handle) (session : Session) (a : Ask) : Asked where
  handle
  onFile := s.find? session.game
  book
  ask := a
  answer := (a.reply book ⟨s.store, session⟩).1
  before := ⟨s.store, session⟩
  after := (a.reply book ⟨s.store, session⟩).2

/-- What can happen to sessions and to those who hold handles of them: sessions are opened and closed,
whoever was given a handle at any time asks something through it, and others write to the store in
between. -/
inductive Traffic : List Asked → Registry → Prop
  | start : Traffic [] {}
  | outside {log : List Asked} {s : Registry} (h : Traffic log s) (store : Store) :
      Traffic log { s with store }
  | opened {log : List Asked} {s t : Registry} {handle : Handle} (h : Traffic log s) (game : GameId)
      (found : s.find game = .ok (handle, t)) : Traffic log t
  | closed {log : List Asked} {s : Registry} (h : Traffic log s) (game : GameId) :
      Traffic log (s.close game).2
  | asked {log : List Asked} {s : Registry} (h : Traffic log s) (handle : Handle) (session : Session)
      (there : s.sessions[handle]? = some session) (book : Rulebook) (a : Ask) :
      Traffic (log ++ [s.asked book handle session a]) (s.ask book handle a).2

/-- The handle on file for a game leads to a session of it, and sessions that are not on file have been
closed. -/
structure Sound (s : Registry) : Prop where
  onFile : ∀ g handle, s.find? g = some handle →
    ∃ session, s.sessions[handle]? = some session ∧ session.game = g
  closed : ∀ (handle : Handle) (session : Session), s.sessions[handle]? = some session →
    s.find? session.game ≠ some handle → session.closed = true

def Silenced (s : Registry) : Prop :=
  ∀ (handle : Handle) (session : Session), s.sessions[handle]? = some session →
    session.closed = true → session.Silent

section Sound

variable {s t : Registry} {game : GameId} {handle : Handle} {session new : Session}
  {book : Rulebook} {a : Ask}

theorem find_cases (h : s.find game = .ok (handle, t)) : t = s ∨ s.find? game = none ∧
    ∃ session : Session, session.game = game ∧ session.closed = false ∧ t = { s with
      sessions := s.sessions ++ [session], opened := s.opened.put game s.sessions.length } := by
  unfold Registry.find at h
  split at h
  · cases h
    exact .inl rfl
  · next hnone =>
    obtain ⟨session, hstart, h⟩ := except_bind_eq_ok.mp h
    cases h
    exact .inr ⟨hnone, session, (Session.start_ok hstart).1, Session.open_of_start hstart, rfl⟩

theorem getElem?_append_singleton {xs : List Session} (h : (xs ++ [new])[handle]? = some session) :
    xs[handle]? = some session ∨ handle = xs.length ∧ session = new := by
  rcases Nat.lt_trichotomy handle xs.length with hi | rfl | hi
  · exact .inl ((List.getElem?_append_left hi).symm.trans h)
  · exact .inr ⟨rfl, by simpa using h.symm⟩
  · rw [List.getElem?_eq_none (by simp; omega)] at h
    cases h

theorem getElem?_set {xs : List Session} {other : Handle} (h : (xs.set handle new)[other]? = some session) :
    other = handle ∧ session = new ∨ other ≠ handle ∧ xs[other]? = some session := by
  by_cases hne : other = handle
  · subst hne
    have hlt : other < xs.length := by simpa using (List.getElem?_eq_some_iff.mp h).1
    rw [List.getElem?_set_self hlt] at h
    exact .inl ⟨rfl, (Option.some.inj h).symm⟩
  · rw [List.getElem?_set_ne (Ne.symm hne)] at h
    exact .inr ⟨hne, h⟩

theorem Sound.find (h : s.Sound) (found : s.find game = .ok (handle, t)) : t.Sound := by
  rcases find_cases found with rfl | ⟨hnone, session, hgame, -, rfl⟩
  · exact h
  have hfile {g : GameId} (hg : g ≠ game) :
      (s.opened.put game s.sessions.length).get? g = s.find? g := Table.get?_put_of_ne _ hg _
  refine ⟨fun g handle hg => ?_, fun handle old hold hstale => ?_⟩
  · by_cases hne : g = game
    · subst hne
      have hlast : s.sessions.length = handle := by simpa [find?] using hg
      exact ⟨session, by simp [← hlast], hgame⟩
    · obtain ⟨old, hold, hg⟩ := h.onFile g handle ((hfile hne).symm.trans hg)
      exact ⟨old, by rw [List.getElem?_append_left (List.getElem?_eq_some_iff.mp hold).1, hold], hg⟩
  · rcases getElem?_append_singleton hold with hold | ⟨rfl, rfl⟩
    · refine h.closed handle old hold ?_
      by_cases hne : old.game = game
      · rw [hne, hnone]
        nofun
      · rwa [← hfile hne]
    · exact absurd (by simp [find?, hgame]) hstale

theorem Silenced.find (h : s.Silenced) (found : s.find game = .ok (handle, t)) : t.Silenced := by
  rcases find_cases found with rfl | ⟨-, session, -, hopen, rfl⟩
  · exact h
  intro handle old hold hclosed
  rcases getElem?_append_singleton hold with hold | ⟨-, rfl⟩
  · exact h handle old hold hclosed
  · cases hopen.symm.trans hclosed

theorem Sound.set (h : s.Sound) (there : s.sessions[handle]? = some session)
    (game : new.game = session.game) (closed : session.closed = true → new.closed = true)
    (store : Store) : Sound { s with store, sessions := s.sessions.set handle new } := by
  refine ⟨fun g other hg => ?_, fun other old hold hstale => ?_⟩
  · obtain ⟨old, hold, rfl⟩ := h.onFile g other hg
    by_cases hne : other = handle
    · subst hne
      obtain rfl := Option.some.inj (there.symm.trans hold)
      exact ⟨new, List.getElem?_set_self (List.getElem?_eq_some_iff.mp there).1, game⟩
    · exact ⟨old, (List.getElem?_set_ne (Ne.symm hne)).trans hold, rfl⟩
  · rcases getElem?_set hold with ⟨rfl, rfl⟩ | ⟨-, hold⟩
    · exact closed (h.closed other session there (game ▸ hstale))
    · exact h.closed other old hold hstale

theorem Silenced.set (h : s.Silenced) (silent : new.closed = true → new.Silent) (store : Store) :
    Silenced { s with store, sessions := s.sessions.set handle new } := by
  intro other old hold hclosed
  rcases getElem?_set hold with ⟨-, rfl⟩ | ⟨-, hold⟩
  · exact silent hclosed
  · exact h other old hold hclosed

theorem Sound.erase (h : s.Sound) (on : s.find? game = some handle)
    (there : s.sessions[handle]? = some session) (closed : session.closed = true) :
    Sound { s with opened := s.opened.erase game } := by
  have hfile {g : GameId} (hg : g ≠ game) : (s.opened.erase game).get? g = s.find? g :=
    Table.get?_erase_of_ne _ hg
  refine ⟨fun g other hg => ?_, fun other old hold hstale => ?_⟩
  · have hne : g ≠ game := by
      rintro rfl
      cases (Table.get?_erase_self _ _).symm.trans hg
    exact h.onFile g other ((hfile hne).symm.trans hg)
  · by_cases hon : s.find? old.game = some other
    · by_cases hg : old.game = game
      · obtain rfl : handle = other := Option.some.inj (on.symm.trans (hg ▸ hon))
        obtain rfl := Option.some.inj (there.symm.trans hold)
        exact closed
      · exact absurd ((hfile hg).trans hon) hstale
    · exact h.closed other old hold hon

theorem close_cases (s : Registry) (game : GameId) : (s.close game).2 = s ∨
    ∃ handle, s.find? game = some handle ∧ (s.close game).2 = { s with
      sessions := s.sessions.modify handle Session.close, opened := s.opened.erase game } := by
  unfold Registry.close
  split
  · next handle hon => exact .inr ⟨handle, hon, rfl⟩
  · exact .inl rfl

theorem modify_close (there : s.sessions[handle]? = some session) :
    s.sessions.modify handle Session.close = s.sessions.set handle session.close := by
  rw [List.modify_eq_set_getElem?, there]
  rfl

theorem Sound.close (h : s.Sound) (game : GameId) : (s.close game).2.Sound := by
  rcases s.close_cases game with heq | ⟨handle, hon, heq⟩ <;> rw [heq]
  · exact h
  obtain ⟨session, there, rfl⟩ := h.onFile game handle hon
  have hclosed := h.set there session.close_game (fun _ => session.closed_close) s.store
  rw [modify_close there]
  exact hclosed.erase hon (List.getElem?_set_self (List.getElem?_eq_some_iff.mp there).1)
    session.closed_close

theorem Silenced.close (h : s.Silenced) (sound : s.Sound) (game : GameId) :
    (s.close game).2.Silenced := by
  rcases s.close_cases game with heq | ⟨handle, hon, heq⟩ <;> rw [heq]
  · exact h
  obtain ⟨session, there, rfl⟩ := sound.onFile game handle hon
  rw [modify_close there]
  exact h.set (fun _ => Session.silent_close (h handle session there)) s.store

theorem Sound.ask (h : s.Sound) (there : s.sessions[handle]? = some session) :
    (s.ask book handle a).2.Sound := by
  have hgame := ((a.reply_apart book).within ⟨s.store, session⟩).game rfl
  rw [ask_eq there]
  rcases hreply : a.reply book ⟨s.store, session⟩ with ⟨answer, w⟩
  rw [hreply] at hgame
  refine h.set there hgame (fun hclosed => ?_) _
  rcases Ask.reply_closed hreply with hsame | ⟨-, hclose⟩
  · exact hsame.trans hclosed
  · exact hclose ▸ session.closed_close

theorem Asked.Harmless.untouched (h : (s.asked book handle session a).Harmless)
    (silent : session.Silent) :
    World.Untouched ⟨s.store, session⟩ (a.reply book ⟨s.store, session⟩).2 := by
  rcases h with hidle | ⟨hatomic, e, hrefused⟩
  · exact Ask.untouched_of_idle hidle silent rfl
  · exact Ask.untouched_of_refused hatomic (Prod.ext hrefused rfl)

theorem Silenced.ask (h : s.Silenced) (there : s.sessions[handle]? = some session)
    (harmless : session.closed = true → (s.asked book handle session a).Harmless) :
    (s.ask book handle a).2.Silenced := by
  rw [ask_eq there]
  rcases hreply : a.reply book ⟨s.store, session⟩ with ⟨answer, w⟩
  refine h.set (fun hclosed => ?_) _
  rcases Ask.reply_closed hreply with hsame | ⟨-, hclose⟩
  · have hbefore := hsame.symm.trans hclosed
    have hsilent := h handle session there hbefore
    have huntouched := (harmless hbefore).untouched hsilent
    rw [hreply] at huntouched
    exact huntouched.silent hsilent
  · exact hclose ▸ Session.silent_close (h handle session there)

theorem asked_changes {g : GameId} (h : (s.asked book handle session a).Changes g) :
    session.game = g := by
  by_contra hne
  have honly := ((a.reply_apart book).within ⟨s.store, session⟩).store (g := session.game) rfl
  exact h ⟨honly.games g (Ne.symm hne), honly.rosters g (Ne.symm hne)⟩

theorem asked_serial (sound : s.Sound) (silenced : s.Silenced)
    (there : s.sessions[handle]? = some session)
    (harmless : session.closed = true → (s.asked book handle session a).Harmless) :
    (s.asked book handle session a).Serial := by
  have hstale (hoff : s.find? session.game ≠ some handle) : session.Silent ∧
      World.Untouched ⟨s.store, session⟩ (a.reply book ⟨s.store, session⟩).2 := by
    have hclosed := sound.closed handle session there hoff
    have hsilent := silenced handle session there hclosed
    exact ⟨hsilent, (harmless hclosed).untouched hsilent⟩
  refine ⟨fun g hchanges => ?_, fun hoff => ?_⟩
  · by_contra hoff
    have hrecords := (hstale hoff).2.records
    exact hchanges ⟨congrArg (fun r : Records => r.games.get? g) hrecords,
      congrArg (fun r : Records => r.rosters.get? g) hrecords⟩
  · obtain ⟨hsilent, huntouched⟩ := hstale hoff
    exact (huntouched.silent hsilent).nobody

end Sound

section Traffic

variable {log : List Asked} {s : Registry}

theorem Traffic.sound (h : Traffic log s) : s.Sound := by
  induction h with
  | start => exact ⟨nofun, nofun⟩
  | outside _ store ih => exact ⟨ih.onFile, ih.closed⟩
  | opened _ game found ih => exact ih.find found
  | closed _ game ih => exact ih.close game
  | asked _ handle session there book a ih => exact ih.ask there

theorem Traffic.silenced (h : Traffic log s)
    (harmless : ∀ x ∈ log, x.before.session.closed = true → x.Harmless) : s.Silenced := by
  induction h with
  | start => exact nofun
  | outside _ store ih => exact ih harmless
  | opened _ game found ih => exact (ih harmless).find found
  | closed h game ih => exact (ih harmless).close h.sound game
  | asked _ handle session there book a ih =>
    obtain ⟨hbefore, hnow⟩ := List.forall_mem_append.mp harmless
    exact (ih hbefore).ask there (hnow _ (List.mem_singleton_self _))

theorem Traffic.changes (h : Traffic log s) : ∀ x ∈ log, ∀ g, x.Changes g →
    x.before.session.game = g ∧ (x.onFile = some x.handle ∨ x.before.session.closed = true) := by
  induction h with
  | start => exact fun x hx => absurd hx List.not_mem_nil
  | outside _ _ ih | opened _ _ _ ih | closed _ _ ih => exact ih
  | asked h handle session there book a ih =>
    refine List.forall_mem_append.mpr ⟨ih, List.forall_mem_singleton.mpr fun g hchanges => ?_⟩
    refine ⟨asked_changes hchanges, ?_⟩
    by_contra hoff
    obtain ⟨hoff, hopen⟩ := not_or.mp hoff
    exact hopen (h.sound.closed handle session there hoff)

theorem Traffic.heedless (h : Traffic log s) : ∀ x ∈ log, x.ask ≠ .request (.call .shutdown) →
    ∀ b, x.ask.reply x.book (x.before.marked b) = (x.answer, x.after.marked b) := by
  induction h with
  | start => exact fun x hx => absurd hx List.not_mem_nil
  | outside _ _ ih | opened _ _ _ ih | closed _ _ ih => exact ih
  | asked h handle session there book a ih =>
    refine List.forall_mem_append.mpr ⟨ih, List.forall_mem_singleton.mpr fun hask b => ?_⟩
    exact Ask.reply_heedless book hask ⟨_, session⟩

theorem Traffic.serial (h : Traffic log s)
    (harmless : ∀ x ∈ log, x.before.session.closed = true → x.Harmless) : ∀ x ∈ log, x.Serial := by
  induction h with
  | start => exact fun x hx => absurd hx List.not_mem_nil
  | outside _ _ ih | opened _ _ _ ih | closed _ _ ih => exact ih harmless
  | asked h handle session there book a ih =>
    obtain ⟨hbefore, hnow⟩ := List.forall_mem_append.mp harmless
    refine List.forall_mem_append.mpr ⟨ih hbefore, List.forall_mem_singleton.mpr ?_⟩
    exact asked_serial h.sound (h.silenced hbefore) there (hnow _ (List.mem_singleton_self _))

/-- Sessions may be opened, closed and opened again, and handles kept for however long. Whatever changes
a game is asked of the one session of it that is on file, or of one that has been closed; and a closed
session answers, and does, just what it would if it were open, unless it is to be closed. If nothing is
asked of closed sessions but what writes and subscribes nothing, or is refused and put back, then all
changes go through the handle on file, what is asked through another leaves no subscription, and there
is none in any closed session. -/
theorem serialized (traffic : Traffic log s) :
    s.Sound ∧
    (∀ x ∈ log, ∀ g, x.Changes g →
      x.before.session.game = g ∧ (x.onFile = some x.handle ∨ x.before.session.closed = true)) ∧
    (∀ x ∈ log, x.ask ≠ .request (.call .shutdown) → ∀ b,
      x.ask.reply x.book (x.before.marked b) = (x.answer, x.after.marked b)) ∧
    ((∀ x ∈ log, x.before.session.closed = true → x.Harmless) → s.Silenced ∧ ∀ x ∈ log, x.Serial) :=
  ⟨traffic.sound, traffic.changes, traffic.heedless,
    fun harmless => ⟨traffic.silenced harmless, traffic.serial harmless⟩⟩

end Traffic

/-- A game with a player who holds a card with an effect. It was opened, closed and opened again, and
the older handle is 0. -/
def reopened : Registry where
  store := {
    games := [("north", { id := "north" })]
    rosters := [("north", [{ Player.named "ada" with hand := ["greenhouse"] }])] }
  sessions := [(Session.new "north" false).watch.close, (Session.new "north" false).watch]
  opened := [("north", 1)]

theorem reopened_traffic : Traffic [] reopened := by
  have hopened : Registry.find { store := reopened.store } "north" = .ok (0,
      { store := reopened.store, sessions := [(Session.new "north" false).watch]
        opened := [("north", 0)] }) := rfl
  exact (((Traffic.start.outside reopened.store).opened "north" hopened).closed "north").opened
    "north" rfl

/-- The older handle is used for an announcement and for a play that is refused, the one on file to pass
the turn. -/
theorem serialized_reopened :
    let older := (Session.new "north" false).watch.close
    let warmed : Ask :=
      .publish (.parameterChanged .temperature { game := "north", before := -30, after := -28 })
    let unknown : Ask := .request (.call (.act "ada" (.play { card := "ghost" })))
    let turn : Ask := .request (.call (.setTurn (some "ada")))
    let r := (reopened.ask neighbours 0 warmed).2
    let s := (r.ask neighbours 0 unknown).2
    let t := (s.ask neighbours 1 turn).2
    let log := [reopened.asked neighbours 0 older warmed, r.asked neighbours 0 older unknown,
      s.asked neighbours 1 (Session.new "north" false).watch turn]
    Traffic log t ∧ t.Sound ∧
      (∀ x ∈ log, ∀ g, x.Changes g →
        x.before.session.game = g ∧ (x.onFile = some x.handle ∨ x.before.session.closed = true)) ∧
      (∀ x ∈ log, x.ask ≠ .request (.call .shutdown) → ∀ b,
        x.ask.reply x.book (x.before.marked b) = (x.answer, x.after.marked b)) ∧
      t.Silenced ∧ ∀ x ∈ log, x.Serial := by
  intro older warmed unknown turn r s t log
  have hr : r.sessions[0]? = some older := by decide +kernel
  have hs : s.sessions[1]? = some (Session.new "north" false).watch := by decide +kernel
  have hrefused : (r.asked neighbours 0 older unknown).answer =
      .error (.refused (.cardNotFound "ghost") true) := by decide +kernel
  have traffic : Traffic log t :=
    ((reopened_traffic.asked 0 older rfl neighbours warmed).asked 0 older hr neighbours unknown).asked
      1 _ hs neighbours turn
  have harmless : ∀ x ∈ log, x.before.session.closed = true → x.Harmless := by
    refine List.forall_mem_cons.mpr ⟨fun _ => .inl rfl, List.forall_mem_cons.mpr ⟨?_, ?_⟩⟩
    · exact fun _ => .inr ⟨rfl, _, hrefused⟩
    · exact List.forall_mem_singleton.mpr fun hclosed => by cases hclosed
  obtain ⟨hsound, hchanges, hheedless, hharmless⟩ := serialized traffic
  exact ⟨traffic, hsound, hchanges, hheedless, hharmless harmless⟩

/-- The card is played through the older handle, into the game and onto the bus of the closed session. -/
def playedLate : Asked :=
  reopened.asked neighbours 0 (Session.new "north" false).watch.close
    (.request (.call (.act "ada" (.play { card := "greenhouse" }))))

theorem playedLate_unserialized :
    Traffic [playedLate] (reopened.ask neighbours playedLate.handle playedLate.ask).2 ∧
      playedLate.before.session.closed = true ∧ playedLate.onFile ≠ some playedLate.handle ∧
      playedLate.answer = .ok .done ∧ playedLate.Changes "north" ∧
      playedLate.after.session.bus.subscriptions ≠ [] := by
  refine ⟨reopened_traffic.asked 0 _ rfl neighbours _, ?_⟩
  unfold Asked.Changes
  decide +kernel

end Registry

end MarsRules
