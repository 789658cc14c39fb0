import MarsRules.Proofs.FirstActions
import MarsRules.Proofs.Offers

/-! The stages of a first action. As long as no call fails it only moves on (`Log.forward`), and while it
waits a selection is open that completes it (`Log.stamped`). -/

namespace MarsRules

open Steps (StopsOnly)

def ForcedState.rank : ForcedState → Nat
  | pending => 1
  | triggered => 2
  | completed => 3

namespace ForcedAction

/-- How a first action may move. -/
inductive Forward : Option ForcedAction → Option ForcedAction → Prop
  | stay (x : Option ForcedAction) : Forward x x
  | create {f : ForcedAction} (pending : f.state = .pending) : Forward none (some f)
  | trigger {f : ForcedAction} (pending : f.state = .pending) (source : String) :
      Forward (some f) (some (f.trigger source))
  | complete {f : ForcedAction} {source : String} (matching : f.matches source) :
      Forward (some f) (some { f with state := .completed })

/-- How many stages it has come through. -/
def progress (x : Option ForcedAction) : Nat := x.elim 0 (·.state.rank)

theorem Forward.progress {x y : Option ForcedAction} (h : Forward x y) :
    y = x ∨ ForcedAction.progress y = ForcedAction.progress x + 1 := by
  cases h with
  | stay => exact .inl rfl
  | create pending => exact .inr (by simp [ForcedAction.progress, pending, ForcedState.rank])
  | trigger pending =>
    exact .inr (by simp [ForcedAction.progress, pending, ForcedAction.trigger, ForcedState.rank])
  | complete matching =>
    have hstate := (matches_iff.mp matching).1
    exact .inr (by simp [ForcedAction.progress, hstate, ForcedState.rank])

end ForcedAction

namespace Made

variable {m : Made} {p : PlayerId} {s : ForcedState}

theorem Enters.progress (h : m.Enters p s)
    (forward : ForcedAction.Forward (m.before.forced? p) (m.after.forced? p)) :
    ForcedAction.progress (m.after.forced? p) = s.rank ∧
      ForcedAction.progress (m.before.forced? p) + 1 = s.rank := by
  obtain ⟨f, hf, rfl⟩ := Option.map_eq_some_iff.mp h.2
  have hafter : ForcedAction.progress (m.after.forced? p) = f.state.rank := by rw [hf]; rfl
  refine ⟨hafter, ?_⟩
  rcases forward.progress with hsame | hnext
  · have hstage : m.after.stage? p = m.before.stage? p := congrArg (Option.map ForcedAction.state) hsame
    exact absurd hstage h.changes
  · exact hnext.symm.trans hafter

end Made

namespace Desk

variable {book : Rulebook} {w : World} {request : Request} {d d' : Desk} {drawn : List CardId}
  {source : String} {f : ForcedAction}

/-- Whoever has a first action has a corporation. -/
def Decided (d : Desk) : Prop := d.forced.isSome → d.corporation.isSome

/-- A selection of this source is open. -/
def Offers (d : Desk) (source : String) : Prop :=
  (∃ o, d.drawOffer = some o ∧ o.source = source) ∨ ∃ o, d.tileOffer = some o ∧ o.source = source

/-- If the first action has been triggered, then a selection is open that completes it. -/
def Stamped (d : Desk) : Prop :=
  ∀ f, d.forced = some f → f.state = .triggered → ∃ source, f.source = some source ∧ d.Offers source

theorem Leaves.offers (h : Leaves source d d') (ho : d.Offers source) : d'.Offers source := by
  rcases ho with ⟨o, ho, hs⟩ | ⟨o, ho, hs⟩
  · exact .inl ((h.draw o ho hs).imp fun _ ho' => ⟨ho'.1, ho'.2.1⟩)
  · exact .inr ⟨o, h.tile o ho hs, hs⟩

theorem Step.corporation (h : d.Step book w request drawn d') (hd : d.corporation.isSome) :
    d'.corporation.isSome := by
  cases h with
  | choose undecided => simp [undecided] at hd
  | play found held grows | use grows => rwa [grows.corporation]
  | place | keep => exact hd
  | trigger asked awaits opens => cases opens <;> exact hd

theorem Step.forward (h : d.Step book w request drawn d') (hd : d.Decided) :
    ForcedAction.Forward d.forced d'.forced ∧ d'.Decided := by
  cases h.urges with
  | same forced =>
    rw [forced]
    exact ⟨.stay _, fun hf => h.corporation (hd (forced ▸ hf))⟩
  | created undecided decided forced pending =>
    have hnone : d.forced = none := by
      cases hf : d.forced with
      | none => rfl
      | some f =>
        have hdecided := hd (by rw [hf]; rfl)
        simp [undecided] at hdecided
    rw [hnone, forced]
    exact ⟨.create pending, fun _ => decided⟩
  | triggered awaits opens hafter =>
    refine ⟨?_, fun _ => h.corporation (hd (by rw [awaits.forced]; rfl))⟩
    rw [hafter, awaits.forced]
    exact .trigger awaits.pending _
  | completed heeds waited matching resolves forced =>
    refine ⟨?_, fun _ => h.corporation (hd (by rw [waited]; rfl))⟩
    rw [waited, forced]
    exact .complete matching

theorem Step.stamped (h : d.Step book w request drawn d') (hw : w.Attended) (hd : d.Stamped) :
    d'.Stamped := by
  intro f hf hstate
  cases h.urges with
  | same forced =>
    have hbefore := forced.symm.trans hf
    obtain ⟨source, hsource, hoffers⟩ := hd f hbefore hstate
    have matching := ForcedAction.matches_iff.mpr ⟨hstate, hsource⟩
    exact ⟨source, hsource, (h.leaves hw hbefore matching forced).offers hoffers⟩
  | created _ _ forced pending =>
    obtain rfl := Option.some.inj (forced.symm.trans hf)
    cases pending.symm.trans hstate
  | triggered awaits opens hafter =>
    subst hafter
    obtain rfl := Option.some.inj hf
    refine ⟨_, rfl, ?_⟩
    cases opens with
    | draw => exact .inl ⟨_, rfl, rfl⟩
    | tile => exact .inr ⟨_, rfl, rfl⟩
  | completed _ _ _ _ forced =>
    obtain rfl := Option.some.inj (forced.symm.trans hf)
    cases hstate

theorem Step.resolves (h : d.Step book w request drawn d') (hr : d.Resolves source request)
    (hw : w.Attended) (hf : d.forced = some f) (matching : f.matches source) :
    d'.forced = some { f with state := .completed } := by
  cases hr with
  | draw offered stamped picked =>
    cases h with
    | keep offered' once taken heard =>
      obtain rfl := Option.some.inj (offered'.symm.trans offered)
      exact heard.completes hw hf (stamped ▸ matching)
    | trigger asked => rcases asked with hasked | ⟨_, hasked⟩ <;> cases hasked
  | tile offered stamped listed =>
    cases h with
    | place offered' listed' heard =>
      obtain rfl := Option.some.inj (offered'.symm.trans offered)
      exact heard.completes hw hf (stamped ▸ matching)
    | trigger asked => rcases asked with hasked | ⟨_, hasked⟩ <;> cases hasked

end Desk

namespace Log

variable {book : Rulebook} {w₀ w : World} {made : List Made} {p : PlayerId} {s : ForcedState}

theorem forward (h : Log book w₀ made w) (reliable : ∀ m ∈ made, m.before.store.Reliable)
    (h₀ : ∀ d, w₀.desk? p = some d → d.Decided) : (∀ d, w.desk? p = some d → d.Decided) ∧
      ∀ m ∈ made, ForcedAction.Forward (m.before.forced? p) (m.after.forced? p) := by
  induction h with
  | start => exact ⟨h₀, fun _ hm => absurd hm List.not_mem_nil⟩
  | @next made w h m outages before run finished ih =>
    obtain ⟨hdecided, hmade⟩ := ih fun m' hm' => reliable m' (List.mem_append_left _ hm')
    have hdesk : m.before.desk? p = w.desk? p := by rw [before]; rfl
    rw [← hdesk] at hdecided
    have hm : (∀ d, m.after.desk? p = some d → d.Decided) ∧
        ForcedAction.Forward (m.before.forced? p) (m.after.forced? p) := by
      rcases Request.run_desk? run finished (reliable m (by simp)) p with
        hsame | ⟨d, drawn, d', -, hd, hd', hstep⟩
      · unfold World.forced?
        rw [hsame]
        exact ⟨hdecided, .stay _⟩
      · obtain ⟨hforward, hdecided'⟩ := hstep.forward (hdecided d hd)
        rw [World.forced?_of_desk? hd, World.forced?_of_desk? hd', hd']
        exact ⟨fun e he => Option.some.inj he ▸ hdecided', hforward⟩
    refine ⟨hm.1, fun m' hm' => ?_⟩
    rcases List.mem_append.mp hm' with hm' | hm'
    · exact hmade m' hm'
    · rw [List.mem_singleton.mp hm']
      exact hm.2

theorem countP_enters (h : Log book w₀ made w)
    (forward : ∀ m ∈ made, ForcedAction.Forward (m.before.forced? p) (m.after.forced? p)) :
    made.countP (·.Enters p s) ≤ if s.rank ≤ ForcedAction.progress (w.forced? p) then 1 else 0 := by
  induction h with
  | start => exact Nat.zero_le _
  | @next made w h m outages before run finished ih =>
    have hcount := ih fun m' hm' => forward m' (List.mem_append_left _ hm')
    have hforward := forward m (by simp)
    have hforced : m.before.forced? p = w.forced? p := by rw [before]; rfl
    rw [← hforced] at hcount
    rw [List.countP_append, List.countP_singleton]
    by_cases hm : m.Enters p s
    · obtain ⟨hafter, hbefore⟩ := hm.progress hforward
      have hfirst : ¬ s.rank ≤ ForcedAction.progress (m.before.forced? p) := by omega
      rw [if_neg hfirst] at hcount
      rw [if_pos (Nat.le_of_eq hafter.symm), if_pos (by simpa using hm)]
      omega
    · rw [if_neg (by simpa using hm), Nat.add_zero]
      refine Nat.le_trans hcount ?_
      rcases hforward.progress with hsame | hnext
      · exact Nat.le_of_eq (by rw [hsame])
      · split <;> split <;> omega

theorem stamped (h : Log book w₀ made w) (filed : w₀.session.Filed) (watching : w₀.session.Watching)
    (reliable : ∀ m ∈ made, m.before.store.Reliable) (h₀ : ∀ d, w₀.desk? p = some d → d.Stamped)
    (heeds : w.session.Heeds) : ∀ d, w.desk? p = some d → d.Stamped := by
  induction h with
  | start => exact h₀
  | @next made w h m outages before run finished ih =>
    have hone : Log book w [m] m.after := .next .start m outages before run finished
    have hheeds := hone.heeds_earlier (h.watchers filed).1 heeds
    have hstamped := ih (fun m' hm' => reliable m' (List.mem_append_left _ hm')) hheeds
    have hdesk : m.before.desk? p = w.desk? p := by rw [before]; rfl
    have hsession : m.before.session = w.session := by rw [before]; rfl
    rw [← hdesk] at hstamped
    rcases Request.run_desk? run finished (reliable m (by simp)) p with
      hsame | ⟨d, drawn, d', -, hd, hd', hstep⟩
    · rwa [hsame]
    · have hattended : m.before.Attended :=
        ⟨reliable m (by simp), hsession ▸ h.watching_of_heeds filed watching hheeds⟩
      intro e he
      obtain rfl := Option.some.inj (hd'.symm.trans he)
      exact hstep.stamped hattended (hstamped d hd)

end Log

namespace Engine

variable {book : Rulebook} {p : PlayerId} {w v : World} {x : Player}

theorem update_reliable (hw : w.store.Reliable) (hp : w.player? p = some x) (f : PlayerField) :
    ∃ v, update p f w = (.ok (), v) ∧ v.store.Reliable ∧ ∃ y, v.player? p = some y := by
  rcases h : update p f w with ⟨stop | _, v⟩
  · exact absurd (update_mayFail h hp) (hw.not_mayFail _)
  · have hdeals := update_deals h hp
    obtain ⟨y, hy, -⟩ :=
      World.player?_of_desk? ((hdeals.desk? p).trans (if_pos (World.player?_id hp).symm))
    exact ⟨v, rfl, hw.later hdeals.outages, y, hy⟩

theorem commitDraw_nil (hw : w.store.Reliable) (hp : w.player? p = some x) {o : DrawOffer}
    (ho : x.drawOffer = some o) : ∃ e v, commitDraw p [] w = (.ok (.drawConfirmed e), v) := by
  have hcost : o.cost 0 = 0 := by simp [DrawOffer.cost, DrawOffer.bought]
  have hcheck (credits : Int) : o.check [] credits = .ok () := by
    simp [DrawOffer.check, DrawOffer.checkPicked, hcost]
  rcases hread : readPlayer p w with ⟨stop | y, u⟩
  · exact absurd (readPlayer_mayFail hread hp) (hw.not_mayFail _)
  obtain ⟨hy, ha⟩ := readPlayer_ok hread
  obtain rfl := Option.some.inj (hp.symm.trans hy)
  have hidle := (readPlayer_idle p).apply hread
  obtain ⟨t, hhand, ht, z, hz⟩ :=
    update_reliable (hw.later hidle.outages) ((ha.player? p).trans hp) (.hand (x.hand ++ []))
  obtain ⟨v, hoffer, -⟩ := update_reliable ht hz (.drawOffer none)
  refine ⟨{ game := v.game, player := p, source := o.source, cards := [] }, v, ?_⟩
  unfold commitDraw
  rw [Steps.bind_apply_ok hread]
  simp only [ho, hcheck, hcost, List.length_nil, Int.lt_irrefl, if_false]
  refine (Steps.bind_apply_ok (show ofExcept (.ok ()) u = (.ok (), u) from rfl)).trans ?_
  exact (Steps.bind_apply_ok hhand).trans (Steps.bind_apply_ok hoffer)

theorem confirmDraw_nil (hw : w.store.Reliable) (hp : w.player? p = some x) {o : DrawOffer}
    (ho : x.drawOffer = some o) (depth : Nat) :
    ∃ v, confirmDraw { book with depth := depth + 1 } p [] w = (.ok (), v) := by
  obtain ⟨e, u, hcommit⟩ := commitDraw_nil hw hp ho
  have hinert : (Event.drawConfirmed e).Inert := fun _ => rfl
  rcases hannounce : announce { book with depth := depth + 1 } [.drawConfirmed e] u with ⟨stop | _, v⟩
  · have hstops : StopsOnly (fun _ => False) (announce { book with depth := depth + 1 } [.drawConfirmed e]) :=
      ((publishWithin_inert hinert depth).bind fun _ => StopsOnly.pure _).bind fun _ => StopsOnly.pure _
    exact (hstops u stop v hannounce).elim
  · exact ⟨v, (Steps.bind_apply_ok hcommit).trans hannounce⟩

end Engine

/-- A selection of this source can be resolved: none of the cards has to be kept, or the tile can be
placed on any hex that is listed, unless something has been built there. -/
inductive World.Resolvable (book : Rulebook) (built : Coord → Prop) (w : World) (d : Desk)
    (source : String) : Prop
  | draw {o : DrawOffer} (offered : d.drawOffer = some o) (stamped : o.source = source)
      (confirms : ∀ depth, ∃ v, (Request.call (.act d.id (.confirmDraw []))).run
        { book with depth := depth + 1 } w = (.ok (), v))
  | tile {o : TileOffer} (offered : d.tileOffer = some o) (stamped : o.source = source)
      (lists : o.hexes ≠ []) (places : ∀ c ∈ o.hexes, Engine.Places book d.id c w ∨ built c)

theorem Request.run_resolves {book : Rulebook} {request : Request} {w v : World} {d : Desk}
    {source : String} {f : ForcedAction} (hd : w.desk? d.id = some d) (hr : d.Resolves source request)
    (hw : w.Attended) (hf : d.forced = some f) (matching : f.matches source)
    (run : request.run book w = (.ok (), v)) : v.forced? d.id = some { f with state := .completed } := by
  obtain ⟨op, rfl⟩ : ∃ op, request = .call (.act d.id op) := by cases hr <;> exact ⟨_, rfl⟩
  rcases Operation.run_cases run (.of_ok rfl) with ⟨-, e, drawn, e', he, hdeals, hstep⟩ | ⟨⟨_, hrefused⟩, -⟩
  · have hthere := hdeals.there
    rw [he, hd] at hthere
    obtain rfl := Option.some.inj hthere
    rw [World.forced?_of_desk? ((hdeals.desk? d.id).trans (if_pos rfl))]
    exact hstep.resolves hr hw hf matching
  · cases hrefused

theorem Made.desk?_or_triggers {book : Rulebook} {m : Made} (p : PlayerId)
    (run : m.request.run book m.before = (m.result, m.after)) (finished : Finished m.result)
    (reliable : m.before.store.Reliable) (hother : ∀ q op, m.request ≠ .call (.act q op)) :
    m.after.desk? p = m.before.desk? p ∨ m.Enters p .triggered := by
  rcases Request.run_desk? run finished reliable p with hsame | ⟨d, drawn, d', -, hd, hd', hstep⟩
  · exact .inl hsame
  · refine .inr ?_
    generalize hasked : m.request = request at hstep
    cases hstep with
    | choose | play | use | place | keep => exact absurd hasked (hother _ _)
    | trigger asked awaits opens =>
      refine ⟨?_, by rw [World.stage?_of_desk? hd']; rfl⟩
      rw [World.stage?_of_desk? hd, awaits.forced, Option.map_some, awaits.pending]
      nofun

theorem Session.start_game? {store : Store} {game : GameId} {recording : Bool} {s : Session}
    (h : start store game recording = .ok s) : ∃ g, store.game? s.game = some g := by
  have hgame := (start_ok h).1
  unfold start at h
  split at h
  · next g hg => exact ⟨g, hgame ▸ hg⟩
  · cases h

namespace Log

variable {book : Rulebook} {w₀ w : World} {made : List Made} {p : PlayerId}

theorem resolvable {game₀ : Game} {d : Desk} {source : String} (h : Log book w₀ made w)
    (hr : book.rules.Ordered) (hgame : w₀.records.game? w₀.game = some game₀)
    (hboard : game₀.board.Distinct) (hnone : ∀ p d, w₀.desk? p = some d → d.tileOffer = none)
    (hd : w.desk? p = some d) (hoffers : d.Offers source) :
    (w.withOutages fun _ => []).Resolvable book
      (fun c => ∃ m ∈ made, ∃ q, q ≠ p ∧ m.request = .call (.act q (.place c)) ∧ m.result = .ok ())
      d source := by
  obtain ⟨x, hp, rfl⟩ := World.player?_of_desk? hd
  obtain rfl := World.player?_id hp
  have hreliable : (w.withOutages fun _ => []).store.Reliable := fun _ _ ho => absurd ho List.not_mem_nil
  rcases hoffers with ⟨o, ho, hs⟩ | ⟨o, ho, hs⟩
  · exact .draw ho hs fun depth => Engine.confirmDraw_nil hreliable hp ho depth
  · have h₀ : w₀.records.OffersStand (Made.Placed []) w₀.game :=
      ⟨game₀, hgame, hboard, fun p x hx offer hoffer => by
        cases (hnone p x.desk (World.desk?_of_player? hx)).symm.trans hoffer⟩
    obtain ⟨hw, now, hnow, -, hall⟩ := h.offersStand h₀
    have hstands := hall x.id x (hw ▸ hp) o ho
    rw [← hw] at hnow
    refine .tile ho hs hstands.lists fun c hc => ?_
    rcases Board.occupy_of_suits (hstands.suits c hc) (o.tile.ownerOf x.id) with
      ⟨placed, hplaced⟩ | ⟨hcovered, -⟩
    · exact .inl (Engine.places_of_occupy hr hnow hp ho hc hplaced hreliable)
    · obtain ⟨q, hq, m, hm, hplaced⟩ := hstands.covered c hc hcovered
      exact .inr ⟨m, hm, q, hq, hplaced⟩

/-- While no call fails, a first action only moves on, each of its states is entered at most once, and
between the players' own operations only its trigger opens a selection. Until the session is shut down,
one that was triggered waits for a selection of its source, and whatever resolves that one completes it. -/
theorem first_action_advances {game : GameId} {recording : Bool} (h : Log book w₀ made w)
    (start : Session.start w₀.store game recording = .ok w₀.session)
    (fresh : ∀ p d, w₀.desk? p = some d → d.forced = none ∧ d.tileOffer = none)
    (reliable : ∀ m ∈ made, m.before.store.Reliable) :
    (∀ m ∈ made, ForcedAction.Forward (m.before.forced? p) (m.after.forced? p)) ∧
    (∀ s, made.countP (·.Enters p s) ≤ 1) ∧
    (∀ m ∈ made, (∀ q op, m.request ≠ .call (.act q op)) →
      m.after.desk? p = m.before.desk? p ∨ m.Enters p .triggered) ∧
    ((∀ m ∈ made, m.request ≠ .call .shutdown) → w.stage? p = some .triggered →
      ∃ d f source, w.desk? p = some d ∧ d.forced = some f ∧ f.source = some source ∧ d.Offers source ∧
        (∀ depth request v, d.Resolves source request →
          request.run { book with depth } (w.withOutages fun _ => []) = (.ok (), v) →
          v.forced? p = some { f with state := .completed }) ∧
        (book.rules.Ordered → (∀ game, w₀.records.game? w₀.game = some game → game.board.Distinct) →
          (w.withOutages fun _ => []).Resolvable book
            (fun c => ∃ m ∈ made, ∃ q, q ≠ p ∧ m.request = .call (.act q (.place c)) ∧ m.result = .ok ())
            d source)) := by
  obtain ⟨-, filed, -⟩ := Session.start_ok start
  have hwatching := Session.start_watching start
  have hnobody (p : PlayerId) : ∀ d, w₀.desk? p = some d → d.forced = none := fun d hd => (fresh p d hd).1
  obtain ⟨-, hforward⟩ := h.forward (p := p) reliable fun d hd hf => by simp [hnobody p d hd] at hf
  refine ⟨hforward, fun s => Nat.le_trans (h.countP_enters hforward) (by split <;> omega),
    fun m hm hother => ?_, fun hopen hstage => ?_⟩
  · obtain ⟨_, _, -, -, -, run, finished⟩ := h.of_mem hm
    exact Made.desk?_or_triggers p run finished (reliable m hm) hother
  · have hwatches := h.watching_of_open filed hwatching hopen
    obtain ⟨d, f, hd, hf, hstate⟩ := World.exists_desk?_of_stage? hstage
    obtain ⟨source, hsource, hoffers⟩ := h.stamped filed hwatching reliable
      (fun d hd f hf => by simp [hnobody p d hd] at hf) hwatches.heeds d hd f hf hstate
    have matching := ForcedAction.matches_iff.mpr ⟨hstate, hsource⟩
    refine ⟨d, f, source, hd, hf, hsource, hoffers, fun depth request v hresolves run => ?_,
      fun hr hboard => ?_⟩
    · obtain rfl := World.desk?_id hd
      have hattended : (w.withOutages fun _ => []).Attended :=
        ⟨fun _ _ ho => absurd ho List.not_mem_nil, hwatches⟩
      have hnow : (w.withOutages fun _ => []).desk? d.id = some d := hd
      exact Request.run_resolves hnow hresolves hattended hf matching run
    · obtain ⟨game₀, hgame⟩ := Session.start_game? start
      exact h.resolvable hr hgame (hboard game₀ hgame) (fun p d hd => (fresh p d hd).2) hd hoffers

theorem first_action_advances_guild : ∃ made w d source, Log trading harbour made w ∧
    made.countP (·.Enters "player" .triggered) = 1 ∧ made.countP (·.Enters "player" .completed) ≤ 1 ∧
    w.desk? "player" = some d ∧ d.Offers source ∧
    (w.withOutages fun _ => []).Resolvable trading
      (fun c => ∃ m ∈ made, ∃ q, q ≠ "player" ∧ m.request = .call (.act q (.place c)) ∧ m.result = .ok ())
      d source := by
  have hfresh (p : PlayerId) (d : Desk) (hd : harbour.desk? p = some d) :
      d.forced = none ∧ d.tileOffer = none := by
    have hmem : d ∈ [(Player.named "player").desk] := List.mem_of_find?_eq_some hd
    rw [List.mem_singleton.mp hmem]
    exact ⟨rfl, rfl⟩
  have hreliable : ∀ m ∈ [guildChosen, guildTriggered], m.before.store.Reliable := by
    intro m hm
    simp only [List.mem_cons, List.not_mem_nil, or_false] at hm
    rcases hm with rfl | rfl <;> exact Made.served_reliable _ _ _
  have hopen : ∀ m ∈ [guildChosen, guildTriggered], m.request ≠ .call .shutdown := by
    intro m hm
    simp only [List.mem_cons, List.not_mem_nil, or_false] at hm
    rcases hm with rfl | rfl <;> nofun
  have hstart : Session.start harbour.store "game" false = .ok harbour.session := rfl
  obtain ⟨-, honce, -, hwaits⟩ :=
    first_action_advances (p := "player") guildTriggered_log hstart hfresh hreliable
  obtain ⟨d, f, source, hd, -, -, hoffers, -, hresolvable⟩ := hwaits hopen (by decide +kernel)
  have hordered : trading.rules.Ordered := fun q => by cases q <;> decide
  refine ⟨_, _, d, source, guildTriggered_log, by decide +kernel, honce _, hd, hoffers,
    hresolvable hordered fun game hgame => ?_⟩
  cases hgame
  exact Board.hexagon_distinct 0

open Engine (camp scouting scoutsChosen scoutsChosen_log)

def scoutsTriggered : Made := .served scouting (.call (.setPhase .action)) scoutsChosen.after

def scoutsClosed : Made := .served scouting (.call .shutdown) scoutsTriggered.after

def scoutsTake : Made := .served scouting (.call (.act "player" (.confirmDraw ["birds"]))) scoutsClosed.after

/-- A corporation that builds a city with its first action. -/
def founders : Card where
  id := "founders"
  name := "Founders"
  type := .corporation
  behaviors := [.firstAction { kind := .tilePlacement .city, amount := 1 }]

def founding : Rulebook where
  catalog := ⟨[founders, colony]⟩
  rules := {}
  depth := 8

/-- Two players who are after the same hex. -/
def ford : World where
  store := {
    games := [("game", { id := "game", turn := some "first", board := .hexagon 0 })]
    rosters := [("game", [Player.named "first", settler "second"])] }
  session := (Session.new "game" false).watch

def foundersChosen : Made := .served founding (.call (.act "first" (.selectCorporation "founders"))) ford

def colonyPlayed : Made := .served founding (settle "second") foundersChosen.after

def foundersTriggered : Made := .served founding (.call (.setPhase .action)) colonyPlayed.after

def colonyBuilt : Made :=
  .served founding (.call (.act "second" (.place (.axial 0 0)))) foundersTriggered.after

/-- Once a session is closed, an action that was triggered is left behind when its cards are taken. In one
that is open, it waits in vain when another player has built on the only hex. -/
theorem first_action_stuck : Session.start camp.store "game" false = .ok camp.session ∧
    (∃ made w, Log scouting camp made w ∧ (∀ m ∈ made, m.before.store.Reliable) ∧
      w.stage? "player" = some .triggered ∧ w.drawOffer? "player" = none ∧ w.tileOffer? "player" = none) ∧
    Session.start ford.store "game" false = .ok ford.session ∧
    ∃ made w d, Log founding ford made w ∧ (∀ m ∈ made, m.before.store.Reliable) ∧
      (∀ m ∈ made, m.request ≠ .call .shutdown) ∧ w.stage? "first" = some .triggered ∧
      w.desk? "first" = some d ∧ ∀ source request, d.Resolves source request →
        ∃ e, (request.run founding w).1 = .error (.refused e true) := by
  have htriggered : Log scouting camp [scoutsChosen, scoutsTriggered] scoutsTriggered.after :=
    Log.served scoutsChosen_log (by decide +kernel)
  have hclosed : Log scouting camp [scoutsChosen, scoutsTriggered, scoutsClosed] scoutsClosed.after :=
    Log.served htriggered (by decide +kernel)
  have htake : Log scouting camp [scoutsChosen, scoutsTriggered, scoutsClosed, scoutsTake] scoutsTake.after :=
    Log.served hclosed (by decide +kernel)
  have hchosen : Log founding ford [foundersChosen] foundersChosen.after :=
    Log.served .start (by decide +kernel)
  have hplayed : Log founding ford [foundersChosen, colonyPlayed] colonyPlayed.after :=
    Log.served hchosen (by decide +kernel)
  have hwaits : Log founding ford [foundersChosen, colonyPlayed, foundersTriggered] foundersTriggered.after :=
    Log.served hplayed (by decide +kernel)
  have hbuilt : Log founding ford [foundersChosen, colonyPlayed, foundersTriggered, colonyBuilt]
    colonyBuilt.after := Log.served hwaits (by decide +kernel)
  refine ⟨rfl, ⟨_, _, htake, ?_, by decide +kernel, by decide +kernel, by decide +kernel⟩, rfl, ?_⟩
  · intro m hm
    simp only [List.mem_cons, List.not_mem_nil, or_false] at hm
    rcases hm with rfl | rfl | rfl | rfl <;> exact Made.served_reliable _ _ _
  obtain ⟨d, hd, hid, hdraw, htile⟩ : ∃ d, colonyBuilt.after.desk? "first" = some d ∧ d.id = "first" ∧
      d.drawOffer = none ∧ d.tileOffer.map (·.hexes) = some [.axial 0 0] :=
    ⟨_, (Option.some_get (by decide +kernel)).symm, by decide +kernel⟩
  refine ⟨_, _, d, hbuilt, fun m hm => ?_, fun m hm => ?_, by decide +kernel, hd, fun source request hr => ?_⟩
  · simp only [List.mem_cons, List.not_mem_nil, or_false] at hm
    rcases hm with rfl | rfl | rfl | rfl <;> exact Made.served_reliable _ _ _
  · simp only [List.mem_cons, List.not_mem_nil, or_false] at hm
    rcases hm with rfl | rfl | rfl | rfl <;> nofun
  · cases hr with
    | draw offered => cases hdraw.symm.trans offered
    | tile offered stamped listed =>
      rw [offered, Option.map_some, Option.some.injEq] at htile
      rw [htile] at listed
      obtain rfl := List.mem_singleton.mp listed
      rw [hid]
      exact ⟨.invalidSelection "hex (0,0,0) is already occupied by a city tile", by decide +kernel⟩

end Log

end MarsRules
