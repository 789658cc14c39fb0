import Mathlib.Data.List.Forall2
import MarsRules.Proofs.Frames

/-! Boards in the course of a game. A tile that lies stays, and a hex is covered only by a placement:
however calls succeed, are refused or fail to be rewound, the board at the end is the board at the start
with one tile more for each placement (`Registry.Run.boards_built`). -/

namespace MarsRules

open Steps (Keeps StopsOnly)

section First

variable {α : Type} {p q : α → Bool} {f : α → α} {xs : List α} {a : α}

theorem forall₂_changeFirst {R : α → α → Prop} (hR : ∀ x, R x x) (ha : xs.find? p = some a)
    (hf : R a (f a)) : List.Forall₂ R xs (changeFirst p f xs) := by
  induction xs with
  | nil => exact .nil
  | cons x rest ih =>
    cases hp : p x with
    | true =>
      obtain rfl : x = a := by simpa [hp] using ha
      rw [changeFirst, if_pos hp]
      exact .cons hf (List.forall₂_same.mpr fun y _ => hR y)
    | false =>
      rw [changeFirst, if_neg (by simp [hp])]
      exact .cons (hR x) (ih (by simpa [hp] using ha))

theorem countP_changeFirst (ha : xs.find? p = some a) (hbefore : q a = false) (hafter : q (f a) = true) :
    (changeFirst p f xs).countP q = xs.countP q + 1 := by
  induction xs with
  | nil => cases ha
  | cons x rest ih =>
    cases hp : p x with
    | true =>
      obtain rfl : x = a := by simpa [hp] using ha
      simp [changeFirst, hp, hbefore, hafter]
    | false =>
      have ih := ih (by simpa [hp] using ha)
      rw [changeFirst, if_neg (by simp [hp]), List.countP_cons, List.countP_cons, ih]
      omega

end First

/-- What placements by players on hexes may have done to a hex: nothing, or it was empty and has a tile
that fits its terrain and belongs to the player who has put it there, an ocean to nobody. -/
inductive Hex.Built (placed : List (PlayerId × Coord)) (h : Hex) : Hex → Prop
  | same : Built placed h h
  | covered (p : PlayerId) (tile : TileKind) (mem : (p, h.coord) ∈ placed) (empty : h.occupant = none)
      (fits : tile = .ocean ↔ h.terrain = .oceanReserved) :
      Built placed h { h with occupant := some { tile, owner := tile.ownerOf p } }

theorem Hex.Built.trans {xs ys : List (PlayerId × Coord)} {h h' h'' : Hex} (first : h.Built xs h')
    (next : h'.Built ys h'') : h.Built (xs ++ ys) h'' := by
  cases first with
  | same =>
    cases next with
    | same => exact .same
    | covered p tile mem empty fits => exact .covered p tile (List.mem_append_right _ mem) empty fits
  | covered p tile mem empty fits =>
    cases next with
    | same => exact .covered p tile (List.mem_append_left _ mem) empty fits
    | covered p' tile' mem' empty' fits' => cases empty'

namespace Board

def occupied (b : Board) : Nat := b.hexes.countP fun h => !h.isEmpty

/-- Hex by hex what placements have done, each of them on a hex of its own. -/
structure Built (placed : List (PlayerId × Coord)) (b b' : Board) : Prop where
  hexes : List.Forall₂ (Hex.Built placed) b.hexes b'.hexes
  occupied : b'.occupied = b.occupied + placed.length

theorem Built.refl (b : Board) : b.Built [] b := ⟨List.forall₂_same.mpr fun _ _ => .same, rfl⟩

theorem Built.trans {xs ys : List (PlayerId × Coord)} {b b' b'' : Board} (first : b.Built xs b')
    (next : b'.Built ys b'') : b.Built (xs ++ ys) b'' where
  hexes := by
    have h := first.hexes
    have h' := next.hexes
    generalize b.hexes = hs, b'.hexes = hs', b''.hexes = hs'' at h h'
    induction h generalizing hs'' with
    | nil => cases h'; exact .nil
    | cons hx _ ih =>
      cases h' with
      | cons hy hrest => exact .cons (hx.trans hy) (ih _ hrest)
  occupied := by
    rw [next.occupied, first.occupied, List.length_append]
    omega

theorem occupy_built {b b' : Board} {p : PlayerId} {c : Coord} {tile : TileKind} {bonus : ResourceSet}
    (h : b.occupy c tile (tile.ownerOf p) = .ok (bonus, b')) : b.Built [(p, c)] b' := by
  unfold occupy at h
  split at h
  · cases h
  · cases h
  · next hex hoccupied hfound =>
    split at h
    · next hfits =>
      obtain ⟨-, rfl⟩ := Prod.ext_iff.mp (Except.ok.inj h)
      have hcoord : hex.coord = c := by simpa using List.find?_some hfound
      have hempty : hex.occupant = none := by
        rcases hex with ⟨coord, terrain, occupant, bonus⟩
        cases occupant with
        | none => rfl
        | some o => exact absurd rfl (hoccupied coord terrain o bonus)
      refine ⟨forall₂_changeFirst (fun _ => .same) hfound ?_, countP_changeFirst hfound ?_ rfl⟩
      · refine .covered p tile (by simp [hcoord]) hempty ?_
        revert hfits
        cases tile <;> cases hex.terrain <;> decide
      · simp [Hex.isEmpty, hempty]
    · cases h

end Board

namespace Store

def board? (s : Store) (g : GameId) : Option Board := (s.game? g).map (·.board)

/-- The boards of all games are left alone. -/
def SameBoards (s t : Store) : Prop := ∀ g, t.board? g = s.board? g

instance : Frame SameBoards where
  trans h h' g := (h' g).trans (h g)
  alike h g := congrArg (fun r : Records => (r.game? g).map fun game : Game => game.board) h.records
  player _ _ _ _ _ := rfl
  deck _ _ _ := rfl
  game {s g game} f h g' := by
    have hboard : (f.put game).board = game.board := by cases f <;> rfl
    by_cases hg : g' = g
    · subst hg
      simp [board?, game?, hboard, show s.games.get? g' = some game from h]
    · simp [board?, game?, hg]

end Store

/-- What placements in the session's game have done to the boards of all games. -/
def World.Built (placed : List (PlayerId × Coord)) (w v : World) : Prop :=
  ∀ g b, w.store.board? g = some b → ∃ b', v.store.board? g = some b' ∧
    b.Built (if g = w.game then placed else []) b'

theorem World.Built.of_same {w v : World} (h : World.Over Store.SameBoards w v) : w.Built [] v := by
  intro g b hb
  refine ⟨b, (h g).trans hb, ?_⟩
  rw [ite_self]
  exact .refl b

theorem Records.game?_changeGame_of_ne {r : Records} {g g' : GameId} {f : Game → Game} (h : g' ≠ g) :
    (r.changeGame g f).game? g' = r.game? g' := by
  unfold changeGame
  split
  · exact Table.get?_put_of_ne _ h _
  · rfl

theorem Placed.board? {w v : World} {game : Game} {player : Player} {offer : TileOffer} {c : Coord}
    {board : Board} (h : Placed w game player offer c board v)
    (hg : w.records.game? w.game = some game) : v.store.board? v.game = some board := by
  obtain ⟨changes, resources, rating, hrecords⟩ := h.records
  show (v.records.game? v.game).map (·.board) = _
  rw [hrecords, h.game, Records.moveOn, Records.changeGame_changeGame, Records.game?_changePlayer,
    Records.game?_changeGame, hg]
  rfl

namespace Engine

variable {book : Rulebook} {p : PlayerId} {c : Coord} {w v : World}

theorem commitPlacement_built {rules : Rules} {bonus : ResourceSet} {events : List Event}
    (h : commitPlacement rules p c w = (.ok (bonus, events), v)) : w.Built [(p, c)] v := by
  obtain ⟨game, player, offer, board, hg, hp, hplaced⟩ := commitPlacement_placed h
  obtain rfl := World.player?_id hp
  obtain ⟨_, hoccupied⟩ := hplaced.occupied
  intro g b hb
  by_cases hgame : g = w.game
  · subst hgame
    obtain rfl : game.board = b := by
      have hb : (w.records.game? w.game).map (·.board) = some b := hb
      simpa [hg] using hb
    refine ⟨board, hplaced.game ▸ hplaced.board? hg, ?_⟩
    rw [if_pos rfl]
    exact Board.occupy_built hoccupied
  · obtain ⟨changes, resources, rating, hrecords⟩ := hplaced.records
    have hb : (w.records.game? g).map (·.board) = some b := hb
    refine ⟨b, ?_, ?_⟩
    · show (v.records.game? g).map (·.board) = _
      rw [hrecords, Records.moveOn, Records.changeGame_changeGame, Records.game?_changePlayer,
        Records.game?_changeGame_of_ne hgame, hb]
    · rw [if_neg hgame]
      exact .refl b

theorem place_built {result : Except Stop ResourceSet} (h : place book p c w = (result, v)) :
    (w.Built [(p, c)] v ∧ ∀ stop, result = .error stop → ¬ stop.IsRefusal) ∨
      w.Built [] v ∧ ∃ stop, result = .error stop := by
  rcases Steps.bind_cases h with ⟨stop, hcommit, rfl⟩ | ⟨⟨bonus, events⟩, u, hcommit, h⟩
  · exact .inr ⟨.of_same (commitPlacement_stopsWithin p book.rules c w stop v hcommit), stop, rfl⟩
  · have hannounce : Keeps (World.Over Store.SameBoards) (announce book events >>= fun _ => pure bonus) :=
      (announce_over book events).bind fun _ => Keeps.pure _
    refine .inl ⟨fun g b hb => ?_, ?_⟩
    · obtain ⟨b', hb', hbuilt⟩ := commitPlacement_built hcommit g b hb
      exact ⟨b', (hannounce.apply h g).trans hb', hbuilt⟩
    · rintro stop rfl hrefusal
      have hnever := (announce_neverRefuses book events).bind (fun _ => StopsOnly.pure bonus) u stop v h
      cases stop with
      | refused e restored => exact hnever e restored rfl
      | brokenRange | tooDeep => exact hrefusal

end Engine

theorem Ask.reply_built {book : Rulebook} {a : Ask} {w v : World} {answer : Except Stop Reply}
    (h : a.reply book w = (answer, v)) : ∃ placed, w.Built placed v ∧
      placed.Sublist a.placement?.toList ∧ (answer.isOk → placed = a.placement?.toList) ∧
      ∀ stop, answer = .error stop → stop.IsRefusal → placed = [] := by
  cases ha : a.placement? with
  | none => exact ⟨[], .of_same ((reply_over book ha).apply h), .slnil, fun _ => rfl, fun _ _ _ => rfl⟩
  | some called =>
    obtain ⟨p, c, rfl⟩ : ∃ p c, a = request (.call (.act p (.place c))) := by
      unfold placement? at ha
      split at ha
      · exact ⟨_, _, rfl⟩
      · cases ha
    cases ha
    rcases Steps.bind_cases h with ⟨stop, hplace, rfl⟩ | ⟨bonus, u, hplace, h⟩
    · rcases Engine.place_built hplace with ⟨hbuilt, hnot⟩ | ⟨hbuilt, -⟩
      · refine ⟨_, hbuilt, .refl _, fun _ => rfl, fun stop' hstop hrefusal => ?_⟩
        cases hstop
        exact absurd hrefusal (hnot stop rfl)
      · exact ⟨_, hbuilt, List.nil_sublist _, nofun, fun _ _ _ => rfl⟩
    · obtain ⟨rfl, rfl⟩ := Prod.ext_iff.mp h
      rcases Engine.place_built hplace with ⟨hbuilt, -⟩ | ⟨-, stop, hstop⟩
      · exact ⟨_, hbuilt, .refl _, fun _ => rfl, nofun⟩
      · cases hstop

namespace Registry

/-- Something that was asked of the session of a game, and the answer. -/
structure Answered where
  game : GameId
  ask : Ask
  answer : Except Stop Reply

namespace Answered

/-- It came to its end, well or not. -/
def Returned (x : Answered) : Prop := ∀ stop, x.answer = .error stop → stop.IsRefusal

def placement? (g : GameId) (x : Answered) : Option (PlayerId × Coord) :=
  if x.game = g then x.ask.placement? else none

end Answered

/-- The placements that were asked for in a game. -/
def attempts (g : GameId) (log : List Answered) : List (PlayerId × Coord) :=
  log.filterMap (·.placement? g)

def placements (g : GameId) (log : List Answered) : List (PlayerId × Coord) :=
  attempts g (log.filter (·.answer.isOk))

/-- What can happen to sessions that share a store, by whatever rules each of them plays: they are
opened, closed and asked in any order, and calls on the store can fail at any time. -/
inductive Run (r : Registry) : List Answered → Registry → Prop
  | start : Run r [] r
  | outages {log : List Answered} {s : Registry} (h : Run r log s) (outages : Call → List Outage) :
      Run r log { s with store := { s.store with outages } }
  | opened {log : List Answered} {s t : Registry} {handle : Handle} (h : Run r log s) (game : GameId)
      (found : s.find game = .ok (handle, t)) : Run r log t
  | closed {log : List Answered} {s : Registry} (h : Run r log s) (game : GameId) :
      Run r log (s.close game).2
  | asked {log : List Answered} {s : Registry} {a : Ask} {answer : Except Stop Reply} {w : World}
      (h : Run r log s) (handle : Handle) (session : Session)
      (there : s.sessions[handle]? = some session) (book : Rulebook)
      (replied : a.reply book ⟨s.store, session⟩ = (answer, w)) :
      Run r (log ++ [⟨session.game, a, answer⟩])
        { s with store := w.store, sessions := s.sessions.set handle w.session }

/-- What became of a board in the course of what was asked: at least the placements that ended well were
made, at most those that were asked for, and if every answer came to its end, then just the former. -/
structure Built (g : GameId) (log : List Answered) (placed : List (PlayerId × Coord)) (b b' : Board) :
    Prop where
  board : b.Built placed b'
  least : (placements g log).Sublist placed
  most : placed.Sublist (attempts g log)
  returned : (∀ x ∈ log, x.Returned) → placed = placements g log

section Built

variable {g : GameId} {b b' b'' : Board}

theorem Built.refl (g : GameId) (b : Board) : Built g [] [] b b := ⟨.refl b, .slnil, .slnil, fun _ => rfl⟩

theorem Built.trans {log log' : List Answered} {xs ys : List (PlayerId × Coord)}
    (first : Built g log xs b b') (next : Built g log' ys b' b'') :
    Built g (log ++ log') (xs ++ ys) b b'' := by
  have happend : placements g (log ++ log') = placements g log ++ placements g log' := by
    simp [placements, attempts]
  refine ⟨first.board.trans next.board, ?_, ?_, fun h => ?_⟩
  · exact happend ▸ first.least.append next.least
  · simpa [attempts] using first.most.append next.most
  · obtain ⟨h, h'⟩ := List.forall_mem_append.mp h
    rw [happend, first.returned h, next.returned h']

theorem Built.of_one {x : Answered} {placed : List (PlayerId × Coord)} (board : b.Built placed b')
    (asked : placed.Sublist (x.placement? g).toList)
    (well : x.answer.isOk → placed = (x.placement? g).toList)
    (refused : ∀ stop, x.answer = .error stop → stop.IsRefusal → placed = []) :
    Built g [x] placed b b' := by
  have hmost : attempts g [x] = (x.placement? g).toList := by
    cases h : x.placement? g <;> simp [attempts, h]
  cases hx : x.answer with
  | ok reply =>
    have hleast : placements g [x] = placed := by
      rw [placements, List.filter_cons_of_pos (by rw [hx]; rfl), List.filter_nil, hmost,
        well (by rw [hx]; rfl)]
    exact ⟨board, hleast ▸ .refl _, hmost ▸ asked, fun _ => hleast.symm⟩
  | error stop =>
    have hleast : placements g [x] = [] := by
      rw [placements, List.filter_cons_of_neg (by rw [hx]; exact Bool.false_ne_true)]
      rfl
    exact ⟨board, hleast ▸ List.nil_sublist _, hmost ▸ asked, fun h =>
      (refused stop hx (h x (List.mem_singleton_self x) stop hx)).trans hleast.symm⟩

theorem Answered.built {book : Rulebook} {a : Ask} {answer : Except Stop Reply} {w v : World}
    (hreply : a.reply book w = (answer, v)) (h : w.store.board? g = some b) :
    ∃ b' placed, v.store.board? g = some b' ∧ Built g [⟨w.game, a, answer⟩] placed b b' := by
  obtain ⟨placed, hbuilt, hasked, hwell, hrefused⟩ := Ask.reply_built hreply
  obtain ⟨b', hb', hboard⟩ := hbuilt g b h
  by_cases hg : g = w.game
  · have hmine : (Answered.mk w.game a answer).placement? g = a.placement? := if_pos hg.symm
    rw [if_pos hg] at hboard
    exact ⟨b', placed, hb', .of_one hboard (hmine ▸ hasked) (hmine ▸ hwell) hrefused⟩
  · have hother : (Answered.mk w.game a answer).placement? g = none := if_neg (Ne.symm hg)
    rw [if_neg hg] at hboard
    have hnothing : [] = (Answered.placement? g ⟨w.game, a, answer⟩).toList := by rw [hother]; rfl
    exact ⟨b', [], hb', .of_one hboard (List.nil_sublist _) (fun _ => hnothing) fun _ _ _ => rfl⟩

end Built

theorem find_store {r s : Registry} {game : GameId} {handle : Handle}
    (h : r.find game = .ok (handle, s)) : s.store = r.store := by
  unfold find at h
  split at h
  · cases h; rfl
  · obtain ⟨session, -, h⟩ := except_bind_eq_ok.mp h
    cases h
    rfl

theorem Run.built {g : GameId} {r s : Registry} {log : List Answered} (run : Run r log s) {b : Board}
    (h : r.store.board? g = some b) :
    ∃ b' placed, s.store.board? g = some b' ∧ Built g log placed b b' := by
  induction run with
  | start => exact ⟨b, [], h, .refl g b⟩
  | outages _ outages ih => exact ih
  | opened _ game found ih => rwa [find_store found]
  | @closed log s _ game ih =>
    have hstore : (s.close game).2.store = s.store := by
      unfold close
      split <;> rfl
    rwa [hstore]
  | asked _ handle session there book replied ih =>
    obtain ⟨b', placed, hb', hbuilt⟩ := ih
    obtain ⟨b'', now, hb'', hnow⟩ := Answered.built replied hb'
    exact ⟨b'', _, hb'', hbuilt.trans hnow⟩

/-- From any moment of a run to any later one, whoever plays, whatever succeeds and whatever is refused:
the hexes are the same ones in the same order, with the same terrain and bonus; a tile that lies stays,
with its owner; and one tile is there in addition for each placement that has ended well, on a hex that
was empty and that it fits, owned by the player who placed it, or an ocean by nobody. -/
theorem Run.boards_built {g : GameId} {r s t : Registry} {log log' : List Answered} {b : Board}
    (earlier : Run r log s) (later : Run s log' t) (h : r.store.board? g = some b) :
    ∃ b' b'' placed placed', s.store.board? g = some b' ∧ t.store.board? g = some b'' ∧
      Built g log placed b b' ∧ Built g log' placed' b' b'' := by
  obtain ⟨b', placed, hb', hbuilt⟩ := earlier.built h
  obtain ⟨b'', placed', hb'', hbuilt'⟩ := later.built hb'
  exact ⟨b', b'', placed, placed', hb', hb'', hbuilt, hbuilt'⟩

/-- The registry with the session of one game. -/
def only (w : World) : Registry :=
  { store := w.store, sessions := [w.session], opened := [("game", 0)] }

theorem Run.next {r : Registry} {log : List Answered} {book : Rulebook} {a : Ask}
    {answer : Except Stop Reply} {w v : World} (h : Run r log (only w))
    (replied : a.reply book w = (answer, v)) : Run r (log ++ [⟨w.game, a, answer⟩]) (only v) :=
  .asked h 0 w.session rfl book replied

def shoreBook : Rulebook := { catalog := {}, rules := {}, depth := 8 }

/-- What is asked on the coast: the ocean, when the board is unavailable and then again, and the greenery
that waits behind it. -/
def oceanAsked : Ask := .request (.call (.act "player" (.place (.axial 0 0))))

def greeneryAsked : Ask := .request (.call (.act "player" (.place (.axial 1 0))))

def stormy : World := (oceanAsked.reply shoreBook Engine.coast).2

def calm : World := (oceanAsked.reply shoreBook stormy).2

def green : World := (greeneryAsked.reply shoreBook calm).2

theorem boards_built_shore :
    let log : List Answered :=
      [⟨"game", oceanAsked, .error (.refused Store.unavailable true)⟩,
        ⟨"game", oceanAsked, .ok (.bonus { plants := 1 })⟩]
    let log' : List Answered := [⟨"game", greeneryAsked, .ok (.bonus {})⟩]
    Run (only Engine.coast) log (only calm) ∧ Run (only calm) log' (only green) ∧
      ∃ b b' b'' placed placed', (only Engine.coast).store.board? "game" = some b ∧
        (only calm).store.board? "game" = some b' ∧ (only green).store.board? "game" = some b'' ∧
        Built "game" log placed b b' ∧ Built "game" log' placed' b' b'' := by
  intro log log'
  have hstormy : oceanAsked.reply shoreBook Engine.coast =
      (.error (.refused Store.unavailable true), stormy) := Prod.fst_eq_iff.mp (by decide +kernel)
  have hcalm : oceanAsked.reply shoreBook stormy = (.ok (.bonus { plants := 1 }), calm) :=
    Prod.fst_eq_iff.mp (by decide +kernel)
  have hgreen : greeneryAsked.reply shoreBook calm = (.ok (.bonus {}), green) :=
    Prod.fst_eq_iff.mp (by decide +kernel)
  have hgame : stormy.game = "game" ∧ calm.game = "game" := by decide +kernel
  have earlier : Run (only Engine.coast) log (only calm) := by
    have h := (Run.start.next hstormy).next hcalm
    rwa [hgame.1] at h
  have later : Run (only calm) log' (only green) := by
    have h := Run.start.next hgreen
    rwa [hgame.2] at h
  obtain ⟨b, hb⟩ : ∃ b, (only Engine.coast).store.board? "game" = some b :=
    Option.isSome_iff_exists.mp (by decide +kernel)
  obtain ⟨b', b'', placed, placed', hb', hb'', hbuilt⟩ := earlier.boards_built later hb
  exact ⟨earlier, later, b, b', b'', placed, placed', hb, hb', hb'', hbuilt⟩

/-- No tile, then the ocean, then the greenery as well. -/
example : ([Engine.coast, calm, green].map fun w => (w.store.board? "game").map (·.occupied)) =
    [some 0, some 1, some 2] := by decide +kernel

end Registry

end MarsRules
