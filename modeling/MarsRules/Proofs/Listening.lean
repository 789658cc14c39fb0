import MarsRules.Session.Basic

/-! The effects that listen on a session's bus. Subscribing adds them at the end, and dropping a card
takes away all effects of that card, whoever owns them. -/

namespace MarsRules

def Listener.effect? : Listener → Option (PlayerId × CardEffect)
  | .effect owner e => some (owner, e)
  | .recorder | .forcedAction => none

/-- Whether it is a passive effect that waits for an event the rules know. -/
def CardEffect.listens (e : CardEffect) : Bool := e.isPassive && e.eventKind?.isSome

theorem Bus.subscriptions_unsubscribeAll {η : Type} (b : Bus η) (ids : List SubscriptionId) :
    (b.unsubscribeAll ids).subscriptions = b.subscriptions.filter (·.id ∉ ids) ∧
      (b.unsubscribeAll ids).issued = b.issued := by
  induction ids generalizing b with
  | nil => simp [unsubscribeAll, List.filter_eq_self.mpr]
  | cons id rest ih =>
    obtain ⟨hs, hi⟩ := ih (b.unsubscribe id).2
    refine ⟨hs.trans ?_, hi⟩
    simp only [unsubscribe, List.filter_filter, List.mem_cons, not_or]
    refine List.filter_congr fun sub _ => ?_
    by_cases h : sub.id = id <;> simp [h]

namespace Session

/-- The effects that listen, with their owners, in the order in which they were subscribed. -/
def live (s : Session) : List (PlayerId × CardEffect) :=
  s.bus.subscriptions.filterMap (·.handler.effect?)

/-- Subscribes the passive ones among these effects. -/
def listen (s : Session) (owner : PlayerId) (effects : List CardEffect) : Session :=
  (effects.filter (·.isPassive)).foldl (fun s e => (s.subscribe owner e).2) s

/-- The same subscriptions for the same game. -/
structure Same (s t : Session) : Prop where
  game : t.game = s.game
  bus : t.bus = s.bus
  subscribed : t.subscribed = s.subscribed

namespace Same

variable {s t u : Session}

theorem refl (s : Session) : Same s s := ⟨rfl, rfl, rfl⟩

theorem trans (h : Same s t) (h' : Same t u) : Same s u :=
  ⟨h'.game.trans h.game, h'.bus.trans h.bus, h'.subscribed.trans h.subscribed⟩

theorem live (h : Same s t) : t.live = s.live := by rw [Session.live, h.bus]; rfl

theorem subscribe (h : Same s t) (owner : PlayerId) (e : CardEffect) :
    Same (s.subscribe owner e).2 (t.subscribe owner e).2 := by
  unfold Session.subscribe
  cases e.eventKind? with
  | none => exact h
  | some kind =>
    simp only [subscriptionsOf, h.bus, h.subscribed]
    exact ⟨h.game, rfl, rfl⟩

theorem listen (h : Same s t) (owner : PlayerId) (effects : List CardEffect) :
    Same (s.listen owner effects) (t.listen owner effects) := by
  unfold Session.listen
  induction effects.filter (·.isPassive) generalizing s t with
  | nil => exact h
  | cons e rest ih => exact ih (h.subscribe owner e)

theorem unsubscribe (h : Same s t) (card : CardId) : Same (s.unsubscribe card) (t.unsubscribe card) := by
  simp only [Session.unsubscribe, subscriptionsOf, h.bus, h.subscribed]
  exact ⟨h.game, rfl, rfl⟩

end Same

section Subscribe

variable {s : Session} {owner : PlayerId} {e : CardEffect} {card : CardId}

theorem live_eq (s : Session) :
    s.live = (s.bus.subscriptions.map (·.handler)).filterMap (·.effect?) := by
  rw [List.filterMap_map]
  rfl

theorem handlers_subscribe : (s.subscribe owner e).2.bus.subscriptions.map (·.handler) =
    s.bus.subscriptions.map (·.handler) ++ if e.eventKind?.isSome then [.effect owner e] else [] := by
  unfold subscribe
  cases e.eventKind? <;> simp [Bus.subscribe]

theorem issued_subscribe : (s.subscribe owner e).2.bus.issued =
    s.bus.issued + if e.eventKind?.isSome then 1 else 0 := by
  unfold subscribe
  cases e.eventKind? <;> rfl

/-- What listens on the bus is filed under its card, and under no other. -/
structure Filed (s : Session) : Prop where
  handedOut : ∀ sub ∈ s.bus.subscriptions, sub.id ≤ s.bus.issued
  handedOut_of : ∀ card, ∀ id ∈ s.subscriptionsOf card, id ≤ s.bus.issued
  mem_iff : ∀ card, ∀ sub ∈ s.bus.subscriptions,
    sub.id ∈ s.subscriptionsOf card ↔ sub.handler.effect?.map (·.2.card) = some card

theorem Same.filed {t : Session} (h : Same s t) (hs : s.Filed) : t.Filed where
  handedOut := h.bus ▸ hs.handedOut
  handedOut_of := by simpa only [subscriptionsOf, h.subscribed, h.bus] using hs.handedOut_of
  mem_iff := by simpa only [subscriptionsOf, h.subscribed, h.bus] using hs.mem_iff

theorem subscriptionsOf_put (s : Session) (bus : Bus Listener) (key : CardId)
    (ids : List SubscriptionId) : subscriptionsOf { s with bus, subscribed := s.subscribed.put key ids } card =
      if card = key then ids else s.subscriptionsOf card := by
  unfold subscriptionsOf
  by_cases h : card = key
  · simp [h]
  · simp [h]

theorem Filed.subscribe (h : s.Filed) : (s.subscribe owner e).2.Filed := by
  unfold Session.subscribe
  cases e.eventKind? with
  | none => exact h
  | some kind =>
    refine ⟨?_, fun card => ?_, fun card => ?_⟩
    · simp only [Bus.subscribe, List.forall_mem_append, List.forall_mem_singleton]
      exact ⟨fun sub hs => Nat.le_succ_of_le (h.handedOut sub hs), Nat.le_refl _⟩
    · rw [subscriptionsOf_put]
      intro id hid
      split at hid
      · rcases List.mem_append.mp hid with hid | hid
        · exact Nat.le_succ_of_le (h.handedOut_of _ id hid)
        · exact Nat.le_of_eq (List.mem_singleton.mp hid)
      · exact Nat.le_succ_of_le (h.handedOut_of _ id hid)
    · have hnew (card : CardId) : s.bus.issued + 1 ∉ s.subscriptionsOf card :=
        fun hid => absurd (h.handedOut_of card _ hid) (Nat.not_succ_le_self _)
      rw [subscriptionsOf_put]
      simp only [Bus.subscribe, List.forall_mem_append, List.forall_mem_singleton]
      refine ⟨fun sub hs => ?_, ?_⟩
      · have hold : sub.id ≠ s.bus.issued + 1 :=
          Nat.ne_of_lt (Nat.lt_succ_of_le (h.handedOut sub hs))
        rw [← h.mem_iff card sub hs]
        split
        · next hc => simp [hc, hold]
        · rfl
      · split
        · next hc => simp [hc, Listener.effect?]
        · next hc => simpa [hnew card, Listener.effect?] using Ne.symm hc

theorem Filed.subscriptions_unsubscribe (h : s.Filed) (card : CardId) :
    (s.unsubscribe card).bus.subscriptions =
      s.bus.subscriptions.filter (·.handler.effect?.map (·.2.card) ≠ some card) := by
  refine (Bus.subscriptions_unsubscribeAll _ _).1.trans (List.filter_congr fun sub hs => ?_)
  simp [h.mem_iff card sub hs]

theorem subscriptionsOf_unsubscribe (s : Session) (key : CardId) :
    (s.unsubscribe key).subscriptionsOf card = if card = key then [] else s.subscriptionsOf card := by
  unfold subscriptionsOf unsubscribe
  by_cases h : card = key
  · simp [h, Table.get?_erase_self]
  · simp [h, Table.get?_erase_of_ne]

theorem issued_unsubscribe (s : Session) (card : CardId) :
    (s.unsubscribe card).bus.issued = s.bus.issued := (Bus.subscriptions_unsubscribeAll _ _).2

theorem Filed.unsubscribe (h : s.Filed) (key : CardId) : (s.unsubscribe key).Filed where
  handedOut := by
    rw [issued_unsubscribe, h.subscriptions_unsubscribe]
    exact fun sub hs => h.handedOut sub ((List.mem_filter.mp hs).1)
  handedOut_of card id hid := by
    rw [subscriptionsOf_unsubscribe] at hid
    rw [issued_unsubscribe]
    split at hid
    · cases hid
    · exact h.handedOut_of card id hid
  mem_iff card sub hs := by
    rw [h.subscriptions_unsubscribe, List.mem_filter] at hs
    rw [subscriptionsOf_unsubscribe]
    split
    · next hc => simpa [hc] using hs.2
    · exact h.mem_iff card sub hs.1

/-- All effects of the card go, and no others. -/
theorem Filed.live_unsubscribe (h : s.Filed) (card : CardId) :
    (s.unsubscribe card).live = s.live.filter (·.2.card ≠ card) := by
  rw [live, h.subscriptions_unsubscribe, live]
  induction s.bus.subscriptions with
  | nil => rfl
  | cons sub rest ih =>
    cases hl : sub.handler.effect? with
    | none => simpa [hl] using ih
    | some l => by_cases hc : l.2.card = card <;> simpa [hl, hc] using ih

end Subscribe

section Listen

variable {s : Session} {owner : PlayerId} {effects : List CardEffect}

theorem listen_cons_of_passive {e : CardEffect} (he : e.isPassive = true) (rest : List CardEffect) :
    s.listen owner (e :: rest) = (s.subscribe owner e).2.listen owner rest := by
  simp [listen, he]

theorem handlers_listen : (s.listen owner effects).bus.subscriptions.map (·.handler) =
    s.bus.subscriptions.map (·.handler) ++ (effects.filter (·.listens)).map (.effect owner) := by
  induction effects generalizing s with
  | nil => simp [listen]
  | cons e rest ih =>
    cases hp : e.isPassive
    · simpa [listen, hp, CardEffect.listens] using ih
    · rw [listen_cons_of_passive hp, ih, handlers_subscribe]
      cases hk : e.eventKind?.isSome <;> simp [hk, hp, CardEffect.listens]

theorem live_listen : (s.listen owner effects).live =
    s.live ++ (effects.filter (·.listens)).map (owner, ·) := by
  rw [live_eq, handlers_listen, List.filterMap_append, ← live_eq, List.filterMap_map]
  exact congrArg _ (congrFun (List.filterMap_eq_map (f := (owner, ·))) _)

theorem issued_listen : (s.listen owner effects).bus.issued =
    s.bus.issued + (effects.filter (·.listens)).length := by
  induction effects generalizing s with
  | nil => simp [listen]
  | cons e rest ih =>
    cases hp : e.isPassive
    · simpa [listen, hp, CardEffect.listens] using ih
    · rw [listen_cons_of_passive hp, ih, issued_subscribe]
      cases hk : e.eventKind?.isSome
      · simp [hk, CardEffect.listens]
      · simp [hk, hp, CardEffect.listens]
        omega

theorem Filed.listen (h : s.Filed) : (s.listen owner effects).Filed := by
  unfold Session.listen
  induction effects.filter (·.isPassive) generalizing s with
  | nil => exact h
  | cons e rest ih => exact ih h.subscribe

end Listen

/-- Nothing listens for an effect on this bus. -/
def Deaf (b : Bus Listener) : Prop :=
  ∀ sub ∈ b.subscriptions, sub.handler.effect? = none ∧ sub.id ≤ b.issued

theorem Deaf.subscribe {b : Bus Listener} (h : Deaf b) (kind : EventKind) {l : Listener}
    (hl : l.effect? = none) : Deaf (b.subscribe kind l).2 := by
  simp only [Deaf, Bus.subscribe, List.forall_mem_append, List.forall_mem_singleton]
  exact ⟨fun sub hs => ⟨(h sub hs).1, Nat.le_succ_of_le (h sub hs).2⟩, hl, Nat.le_refl _⟩

theorem Deaf.foldl_subscribe {b : Bus Listener} (h : Deaf b) (kinds : List EventKind) {l : Listener}
    (hl : l.effect? = none) : Deaf (kinds.foldl (fun b kind => (b.subscribe kind l).2) b) := by
  induction kinds generalizing b with
  | nil => exact h
  | cons kind rest ih => exact ih (h.subscribe kind hl)

/-- A session that is opened listens for no effect yet. -/
theorem start_ok {store : Store} {game : GameId} {recording : Bool} {s : Session}
    (h : start store game recording = .ok s) : s.game = game ∧ s.Filed ∧ s.live = [] := by
  unfold start at h
  split at h
  · cases h
    have hnew : Deaf (new game recording).bus := by
      unfold new
      split
      · exact Deaf.foldl_subscribe (fun sub hs => by cases hs) _ rfl
      · exact fun sub hs => by cases hs
    have hb : Deaf (new game recording).watch.bus :=
      ((hnew.subscribe .phaseChanged rfl).subscribe .drawConfirmed rfl).subscribe .tilePlaced rfl
    refine ⟨rfl, ⟨fun sub hs => (hb sub hs).2, ?_, fun card sub hs => ?_⟩, ?_⟩
    · exact fun card id hid => by cases hid
    · rw [(hb sub hs).1]
      constructor
      · exact fun hid => by cases hid
      · exact fun he => by cases he
    · exact List.filterMap_eq_nil_iff.mpr fun sub hs => (hb sub hs).1
  · cases h

end Session

end MarsRules
