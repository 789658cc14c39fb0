import MarsRules.Undo

/-! The records that a transaction can put back, as one value, and what it means to write a list of
entries over them. An entry that a later one overwrites makes no difference (`putAll_put`), which is
what lets a log of old values absorb the new ones. -/

namespace MarsRules

namespace Table

variable {α : Type}

theorem put_put (t : Table α) (key : String) (a b : α) :
    (t.put key a).put key b = t.put key b := by
  induction t with
  | nil => simp [put]
  | cons row rest ih =>
    obtain ⟨k, c⟩ := row
    by_cases h : k = key <;> simp [put, h, ih]

theorem put_of_get? {t : Table α} {key : String} {a : α} (h : t.get? key = some a) :
    t.put key a = t := by
  induction t with
  | nil => simp [get?] at h
  | cons row rest ih =>
    obtain ⟨k, c⟩ := row
    by_cases hk : k = key
    · simp_all [get?, put]
    · simp only [get?, hk, if_false] at h
      simp [put, hk, ih h]

end Table

section First

variable {α : Type} {p q : α → Bool} {f h : α → α}

theorem changeFirst_changeFirst (hh : ∀ a, p a = true → p (h a) = true) (xs : List α) :
    changeFirst p f (changeFirst p h xs) = changeFirst p (f ∘ h) xs := by
  induction xs with
  | nil => rfl
  | cons a rest ih =>
    cases hp : p a
    · simp [changeFirst, hp, ih]
    · simp [changeFirst, hp, hh a hp]

theorem changeFirst_comm (hpq : ∀ a, p a = true → q a = false) (hf : ∀ a, q (f a) = q a)
    (hh : ∀ a, p (h a) = p a) (xs : List α) :
    changeFirst p f (changeFirst q h xs) = changeFirst q h (changeFirst p f xs) := by
  induction xs with
  | nil => rfl
  | cons a rest ih =>
    cases hp : p a
    · cases hq : q a <;> simp [changeFirst, hp, hq, hh, ih]
    · simp [changeFirst, hp, hpq a hp, hf]

theorem changeFirst_congr {xs : List α} (hx : ∀ a, xs.find? p = some a → f a = h a) :
    changeFirst p f xs = changeFirst p h xs := by
  induction xs with
  | nil => rfl
  | cons a rest ih =>
    cases hp : p a
    · simp only [List.find?_cons, hp] at hx
      simp [changeFirst, hp, ih hx]
    · simp [changeFirst, hp, hx a (by simp [hp])]

/-- Where the change makes no difference to another test, what passes it is found in the same place. -/
theorem find?_changeFirst_of_same (hf : ∀ a, p a = true → q (f a) = q a) (xs : List α) :
    (changeFirst p f xs).find? q = xs.find? q ∨
      ∃ a, p a = true ∧ xs.find? q = some a ∧ (changeFirst p f xs).find? q = some (f a) := by
  induction xs with
  | nil => exact .inl rfl
  | cons a rest ih =>
    cases hp : p a
    · cases hq : q a
      · simpa [changeFirst, hp, hq] using ih
      · exact .inl (by simp [changeFirst, hp, hq])
    · cases hq : q a
      · exact .inl (by simp [changeFirst, hp, hq, hf a hp])
      · exact .inr ⟨a, hp, by simp [hq], by simp [changeFirst, hp, hq, hf a hp]⟩

theorem map_changeFirst {β : Type} {key : α → β} (hf : ∀ a, p a = true → key (f a) = key a)
    (xs : List α) : (changeFirst p f xs).map key = xs.map key := by
  induction xs with
  | nil => rfl
  | cons a rest ih => cases hp : p a <;> simp [changeFirst, hp, ih, hf a]

theorem changeFirst_append_cons {a : α} {before : List α} (hb : ∀ b ∈ before, p b = false)
    (ha : p a = true) (rest : List α) :
    changeFirst p f (before ++ a :: rest) = before ++ f a :: rest := by
  induction before with
  | nil => simp [changeFirst, ha]
  | cons b before ih =>
    obtain ⟨hb, hbefore⟩ := List.forall_mem_cons.mp hb
    simp [changeFirst, hb, ih hbefore]

theorem changeFirst_id (xs : List α) : changeFirst p id xs = xs := by
  induction xs with
  | nil => rfl
  | cons a rest ih => cases hp : p a <;> simp [changeFirst, hp, ih]

end First

namespace PlayerField

theorem put_put {f h : PlayerField} (hw : f.write = h.write) (p : Player) :
    f.put (h.put p) = f.put p := by
  cases f <;> cases h <;> first | rfl | simp [write] at hw

theorem put_comm {f h : PlayerField} (hw : f.write ≠ h.write) (p : Player) :
    f.put (h.put p) = h.put (f.put p) := by
  cases f <;> cases h <;> first | rfl | simp [write] at hw

@[simp] theorem put_current (f : PlayerField) (p : Player) : (f.current p).put p = p := by
  cases f <;> rfl

end PlayerField

/-- The games and the players of all games. -/
structure Records where
  games : Table Game
  rosters : Table (List Player)

def Store.records (s : Store) : Records := ⟨s.games, s.rosters⟩

namespace Records

def game? (r : Records) (g : GameId) : Option Game := r.games.get? g

def roster (r : Records) (g : GameId) : List Player := (r.rosters.get? g).getD []

def player? (r : Records) (g : GameId) (p : PlayerId) : Option Player :=
  (r.roster g).find? (·.id == p)

/-- Nothing changes where there is no such game. -/
def changePlayer (r : Records) (g : GameId) (p : PlayerId) (f : Player → Player) : Records :=
  match r.rosters.get? g with
  | some players => { r with rosters := r.rosters.put g (changeFirst (·.id == p) f players) }
  | none => r

def changeGame (r : Records) (g : GameId) (f : Game → Game) : Records :=
  match r.games.get? g with
  | some game => { r with games := r.games.put g (f game) }
  | none => r

variable {r : Records} {g : GameId} {p q : PlayerId} {f h : Player → Player}

theorem changePlayer_changePlayer (hh : ∀ x, x.id = p → (h x).id = p) :
    (r.changePlayer g p h).changePlayer g p f = r.changePlayer g p (f ∘ h) := by
  unfold changePlayer
  cases hr : r.rosters.get? g with
  | none => simp [hr]
  | some players =>
    have : ∀ x : Player, (x.id == p) = true → ((h x).id == p) = true := by simpa using hh
    simp [Table.put_put, changeFirst_changeFirst this]

theorem player?_changePlayer (hf : ∀ x, x.id = p → (f x).id = p) :
    (r.changePlayer g p f).player? g p = (r.player? g p).map f := by
  unfold changePlayer
  cases hr : r.rosters.get? g with
  | none => simp [player?, roster, hr]
  | some players =>
    have : ∀ x : Player, (x.id == p) = true → ((f x).id == p) = true := by simpa using hf
    simp [player?, roster, hr, find?_changeFirst this]

theorem player?_changePlayer_of_ne (hq : q ≠ p) (hf : ∀ x, x.id = p → (f x).id = p) :
    (r.changePlayer g p f).player? g q = r.player? g q := by
  unfold changePlayer
  cases hr : r.rosters.get? g with
  | none => rfl
  | some players =>
    have hother (x : Player) (hx : (x.id == p) = true) : ((f x).id == q) = (x.id == q) := by
      have hx : x.id = p := by simpa using hx
      rw [hx, hf x hx]
    simp only [player?, roster, hr, Table.get?_put_self, Option.getD_some]
    rcases find?_changeFirst_of_same (p := (·.id == p)) (q := (·.id == q)) hother players
      with h | ⟨x, hx, hfound, -⟩
    · exact h
    · have hid : x.id = q := by simpa using List.find?_some hfound
      exact absurd (hid.symm.trans (by simpa using hx)) hq

/-- A record that is there makes way for another. -/
theorem player?_changePlayer_there {x y : Player} (there : r.player? g x.id = some x)
    (hid : y.id = x.id) (q : PlayerId) : (r.changePlayer g x.id fun _ => y).player? g q =
      if q = x.id then some y else r.player? g q := by
  split
  · next hq => rw [hq, player?_changePlayer fun _ _ => hid, there, Option.map_some]
  · next hq => exact player?_changePlayer_of_ne hq fun _ _ => hid

theorem roster_changePlayer (g' : GameId) : (r.changePlayer g p f).roster g' =
    if g' = g then changeFirst (·.id == p) f (r.roster g) else r.roster g' := by
  unfold changePlayer
  split <;> split <;> simp_all [roster, changeFirst]

/-- Where no two have one id, the record of a player is written in its place. -/
theorem roster_changePlayer_there {before rest : List Player} {x : Player}
    (there : r.roster g = before ++ x :: rest) (hids : ((r.roster g).map (·.id)).Nodup) (g' : GameId) :
    (r.changePlayer g x.id f).roster g' = if g' = g then before ++ f x :: rest else r.roster g' := by
  have hbefore : ∀ y ∈ before, (y.id == x.id) = false := fun y hy => by
    rw [there, List.map_append, List.nodup_append] at hids
    simpa using hids.2.2 y.id (List.mem_map_of_mem hy) x.id (by simp)
  rw [roster_changePlayer, there, changeFirst_append_cons hbefore (by simp)]

theorem ids_changePlayer (hf : ∀ x, x.id = p → (f x).id = p) :
    ((r.changePlayer g p f).roster g).map (·.id) = (r.roster g).map (·.id) := by
  rw [roster_changePlayer, if_pos rfl]
  refine map_changeFirst (fun x hx => ?_) _
  obtain rfl : x.id = p := by simpa using hx
  exact hf x rfl

theorem changePlayer_comm (hpq : p ≠ q) (hf : ∀ x, (f x).id = x.id) (hh : ∀ x, (h x).id = x.id) :
    (r.changePlayer g q h).changePlayer g p f = (r.changePlayer g p f).changePlayer g q h := by
  unfold changePlayer
  cases hr : r.rosters.get? g with
  | none => simp [hr]
  | some players =>
    have hd : ∀ a : Player, (a.id == p) = true → (a.id == q) = false := by
      intro a ha
      simpa using fun hq => hpq ((by simpa using ha : a.id = p).symm.trans hq)
    simp only [Table.get?_put_self, Table.put_put]
    rw [changeFirst_comm hd (fun a => by rw [hf]) (fun a => by rw [hh])]

theorem changePlayer_congr (hx : ∀ x, r.player? g p = some x → f x = h x) :
    r.changePlayer g p f = r.changePlayer g p h := by
  unfold changePlayer
  cases hr : r.rosters.get? g with
  | none => rfl
  | some players =>
    have : changeFirst (·.id == p) f players = changeFirst (·.id == p) h players := by
      apply changeFirst_congr
      simpa [player?, roster, hr] using hx
    simp [this]

theorem changePlayer_id : r.changePlayer g p id = r := by
  unfold changePlayer
  cases hr : r.rosters.get? g with
  | none => rfl
  | some players => simp [changeFirst_id, Table.put_of_get? hr]

theorem changeGame_changeGame (u v : Game → Game) :
    (r.changeGame g v).changeGame g u = r.changeGame g (u ∘ v) := by
  unfold changeGame
  cases hr : r.games.get? g with
  | none => simp [hr]
  | some game => simp [Table.put_put]

theorem changeGame_congr {u v : Game → Game} (hx : ∀ x, r.game? g = some x → u x = v x) :
    r.changeGame g u = r.changeGame g v := by
  unfold changeGame
  cases hr : r.games.get? g with
  | none => rfl
  | some game => simp [hx game hr]

theorem changeGame_of_game? {u : Game → Game} (hx : ∀ x, r.game? g = some x → u x = x) :
    r.changeGame g u = r := by
  unfold changeGame
  cases hr : r.games.get? g with
  | none => rfl
  | some game => simp [hx game hr, Table.put_of_get? hr]

theorem player?_changeGame (u : Game → Game) : (r.changeGame g u).player? g p = r.player? g p := by
  unfold changeGame
  split <;> rfl

theorem roster_changeGame (u : Game → Game) (g' : GameId) :
    (r.changeGame g u).roster g' = r.roster g' := by
  unfold changeGame
  split <;> rfl

theorem changeGame_changePlayer (u : Game → Game) :
    (r.changePlayer g p f).changeGame g u = (r.changeGame g u).changePlayer g p f := by
  unfold changePlayer changeGame
  cases hr : r.rosters.get? g <;> cases r.games.get? g <;> simp [hr]

end Records

/-- A field that a transaction can overwrite. -/
inductive Cell where
  | player (id : PlayerId) (field : Write)
  | parameter (p : GlobalParameter)
deriving DecidableEq, Repr

/-- A cell and what it is to hold. -/
inductive Entry where
  | player (id : PlayerId) (f : PlayerField)
  | parameter (p : GlobalParameter) (v : Int)
deriving DecidableEq, Repr

namespace Entry

def cell : Entry → Cell
  | player id f => .player id f.write
  | parameter p _ => .parameter p

def put (g : GameId) (r : Records) : Entry → Records
  | player id f => r.changePlayer g id f.put
  | parameter p v => r.changeGame g (GameField.parameter p v).put

theorem put_put {d e : Entry} (h : d.cell = e.cell) (g : GameId) (r : Records) :
    d.put g (e.put g r) = d.put g r := by
  cases d with
  | player p f =>
    cases e with
    | player q f' =>
      obtain ⟨rfl, hw⟩ : p = q ∧ f.write = f'.write := by simpa [cell] using h
      simp only [put]
      rw [Records.changePlayer_changePlayer (by simp)]
      congr 1
      funext x
      exact PlayerField.put_put hw x
    | parameter q w => simp [cell] at h
  | parameter p v =>
    cases e with
    | player q f' => simp [cell] at h
    | parameter q w =>
      obtain rfl : p = q := by simpa [cell] using h
      simp only [put, Records.changeGame_changeGame]
      congr 1
      funext x
      cases p <;> rfl

theorem put_comm {d e : Entry} (h : d.cell ≠ e.cell) (g : GameId) (r : Records) :
    d.put g (e.put g r) = e.put g (d.put g r) := by
  cases d with
  | player p f =>
    cases e with
    | player q f' =>
      simp only [put]
      by_cases hpq : p = q
      · subst hpq
        have hw : f.write ≠ f'.write := fun hw => h (by simp [cell, hw])
        rw [Records.changePlayer_changePlayer (by simp),
          Records.changePlayer_changePlayer (by simp)]
        congr 1
        funext x
        exact PlayerField.put_comm hw x
      · exact Records.changePlayer_comm hpq (by simp) (by simp)
    | parameter q w => exact (Records.changeGame_changePlayer _).symm
  | parameter p v =>
    cases e with
    | player q f' => exact Records.changeGame_changePlayer _
    | parameter q w =>
      have hpq : p ≠ q := fun hpq => h (by simp [cell, hpq])
      simp only [put, Records.changeGame_changeGame]
      congr 1
      funext x
      cases p <;> cases q <;> first | rfl | exact absurd rfl hpq

end Entry

namespace Records

/-- Writes entries, the first in the list first. -/
def putAll (r : Records) (g : GameId) (es : List Entry) : Records := es.foldl (Entry.put g) r

@[simp] theorem putAll_nil (r : Records) (g : GameId) : r.putAll g [] = r := rfl

@[simp] theorem putAll_cons (r : Records) (g : GameId) (e : Entry) (es : List Entry) :
    r.putAll g (e :: es) = (e.put g r).putAll g es := rfl

theorem putAll_append (r : Records) (g : GameId) (ds es : List Entry) :
    r.putAll g (ds ++ es) = (r.putAll g ds).putAll g es := List.foldl_append ..

/-- What a later entry overwrites is as if it had not been written. -/
theorem putAll_put {g : GameId} {d : Entry} {es : List Entry} (hd : d.cell ∈ es.map Entry.cell)
    (r : Records) : (d.put g r).putAll g es = r.putAll g es := by
  induction es generalizing r with
  | nil => simp at hd
  | cons e rest ih =>
    simp only [putAll_cons]
    by_cases he : e.cell = d.cell
    · rw [Entry.put_put he]
    · rw [Entry.put_comm he]
      refine ih ?_ _
      simpa [Ne.symm he] using hd

/-- An entry that no later one overwrites may as well be written last. -/
theorem put_putAll {g : GameId} {d : Entry} {es : List Entry} (hd : d.cell ∉ es.map Entry.cell)
    (r : Records) : d.put g (r.putAll g es) = (d.put g r).putAll g es := by
  induction es generalizing r with
  | nil => rfl
  | cons e rest ih =>
    simp only [List.map_cons, List.mem_cons, not_or] at hd
    rw [putAll_cons, putAll_cons, ih hd.2, Entry.put_comm hd.1]

/-- Entries each of which is overwritten by `es` or changes nothing after it. -/
theorem putAll_harmless {g : GameId} {r : Records} {ds es : List Entry}
    (hd : ∀ d ∈ ds, d.cell ∈ es.map Entry.cell ∨ d.put g (r.putAll g es) = r.putAll g es) :
    (r.putAll g ds).putAll g es = r.putAll g es := by
  induction ds generalizing r with
  | nil => rfl
  | cons d rest ih =>
    have h : (d.put g r).putAll g es = r.putAll g es := by
      by_cases hc : d.cell ∈ es.map Entry.cell
      · exact putAll_put hc r
      · rw [← put_putAll hc]
        exact (hd d (List.mem_cons_self ..)).resolve_left hc
    rw [putAll_cons, ih fun e he => ?_, h]
    rw [h]
    exact hd e (List.mem_cons_of_mem _ he)

end Records

namespace Change

/-- What putting a change back writes. -/
def entries : Change → List Entry
  | player id previous => [.player id previous]
  | tiles id queue offer => [.player id (.queue queue), .player id (.tileOffer offer)]
  | subscribed _ => []
  | parameter p previous => [.parameter p previous]

end Change

end MarsRules
