import MarsRules.Proofs.Watching

/-! The course of a player's first action. A trigger opens a selection for it, and as long as anything
is heard of selections that are resolved, the action waits for just as long as that selection does. -/

namespace MarsRules

/-- How far the first action of a player has come, if there is any. -/
def World.stage? (w : World) (p : PlayerId) : Option ForcedState := (w.forced? p).map (·.state)

def World.tileOffer? (w : World) (p : PlayerId) : Option TileOffer := (w.desk? p).bind (·.tileOffer)

def World.drawOffer? (w : World) (p : PlayerId) : Option DrawOffer := (w.desk? p).bind (·.drawOffer)

/-- With this request the first action of the player comes to this stage. -/
def Made.Enters (m : Made) (p : PlayerId) (s : ForcedState) : Prop :=
  m.before.stage? p ≠ some s ∧ m.after.stage? p = some s

instance (m : Made) (p : PlayerId) (s : ForcedState) : Decidable (m.Enters p s) :=
  inferInstanceAs (Decidable (_ ∧ _))

theorem ForcedAction.matches_iff {f : ForcedAction} {source : String} :
    f.matches source ↔ f.state = .triggered ∧ f.source = some source := by
  simp [ForcedAction.matches]

theorem World.Hears.completes {w : World} {source : String} {x y : Option ForcedAction} {f : ForcedAction}
    (h : w.Hears source x y) (hw : w.Attended) (hx : x = some f) (hf : f.matches source) :
    y = some { f with state := .completed } := by
  obtain ⟨-, rfl⟩ := h.resolve_right fun h => h.1 hw
  rw [hx, Option.map_some, ForcedAction.answered_of_matches hf]

theorem World.Hears.cases {w : World} {source : String} {x y : Option ForcedAction}
    (h : w.Hears source x y) : y = x ∨ w.session.Heeds ∧ ∃ f, x = some f ∧ f.matches source ∧
      y = some { f with state := .completed } := by
  rcases h with ⟨hheeds, rfl⟩ | ⟨-, rfl⟩
  · cases x with
    | none => exact .inl rfl
    | some f =>
      by_cases hf : f.matches source
      · exact .inr ⟨hheeds, f, rfl, hf, congrArg some (ForcedAction.answered_of_matches hf)⟩
      · exact .inl (congrArg some (ForcedAction.answered_of_not hf))
  · exact .inl rfl

namespace Desk

variable {book : Rulebook} {w : World} {request : Request} {d d' d'' : Desk} {drawn : List CardId}
  {source : String} {f : ForcedAction}

/-- The open selections of this source are still open; more cards may have been drawn. -/
structure Leaves (source : String) (d d' : Desk) : Prop where
  draw : ∀ o, d.drawOffer = some o → o.source = source →
    ∃ o', d'.drawOffer = some o' ∧ o'.source = source ∧ o.cards <+: o'.cards
  tile : ∀ o, d.tileOffer = some o → o.source = source → d'.tileOffer = some o

theorem Leaves.refl (source : String) (d : Desk) : Leaves source d d :=
  ⟨fun o ho hs => ⟨o, ho, hs, List.prefix_rfl⟩, fun _ ho _ => ho⟩

theorem Leaves.trans (h : Leaves source d d') (h' : Leaves source d' d'') : Leaves source d d'' where
  draw o ho hs := by
    obtain ⟨o', ho', hs', hcards⟩ := h.draw o ho hs
    obtain ⟨o'', ho'', hs'', hcards'⟩ := h'.draw o' ho' hs'
    exact ⟨o'', ho'', hs'', hcards.trans hcards'⟩
  tile o ho hs := h'.tile o (h.tile o ho hs) hs

theorem Grows.leaves (h : d.Grows drawn d') (source : String) : Leaves source d d' where
  draw o ho hs := by
    obtain ⟨o', ho', hs'⟩ := h.source o ho
    have htake := h.toTake
    simp only [Desk.toTake, ho, ho', Option.elim_some] at htake
    exact ⟨o', ho', hs'.trans hs, htake ▸ List.prefix_append ..⟩
  tile o ho _ := (h.tileOffer (by rw [ho]; rfl)).trans ho

/-- The player of this desk resolves an open selection of this source: some of the cards drawn are kept,
or the tile is placed on a hex that is listed. -/
inductive Resolves (d : Desk) (source : String) : Request → Prop
  | draw {o : DrawOffer} (offered : d.drawOffer = some o) (stamped : o.source = source)
      (picked : List CardId) : Resolves d source (.call (.act d.id (.confirmDraw picked)))
  | tile {o : TileOffer} (offered : d.tileOffer = some o) (stamped : o.source = source)
      {c : Coord} (listed : c ∈ o.hexes) : Resolves d source (.call (.act d.id (.place c)))

/-- What a request may do to the first action of its player. -/
inductive Urges (book : Rulebook) (w : World) (d : Desk) (request : Request) (d' : Desk) : Prop
  | same (forced : d'.forced = d.forced)
  | created {f : ForcedAction} (undecided : d.corporation = none) (decided : d'.corporation.isSome)
      (forced : d'.forced = some f) (pending : f.state = .pending)
  | triggered {f : ForcedAction} {corporation : Card} {item : LineItem} {drawn : List CardId} {d₁ : Desk}
      (awaits : d.Awaits book.catalog f corporation item)
      (opens : d.Opens w.deck corporation.id item drawn d₁)
      (after : d' = { d₁ with forced := some (f.trigger corporation.id) })
  | completed {f : ForcedAction} {source : String} (heeds : w.session.Heeds)
      (waited : d.forced = some f) (matching : f.matches source) (resolves : d.Resolves source request)
      (forced : d'.forced = some { f with state := .completed })

theorem Step.urges (h : d.Step book w request drawn d') : Urges book w d request d' := by
  cases h with
  | @choose id card _ _ undecided found grows =>
    have hforced : d'.forced = (card.forcedAction? <|> d.forced) := grows.forced
    cases hcard : card.forcedAction? with
    | none => exact .same (by rw [hforced, hcard]; rfl)
    | some f =>
      refine .created undecided (by rw [grows.corporation]; rfl) (by rw [hforced, hcard]; rfl) ?_
      simp only [Card.forcedAction?, Option.bind_eq_bind, Option.bind_eq_some_iff] at hcard
      obtain ⟨_, -, _, -, hf⟩ := hcard
      cases hf
      rfl
  | play found held grows | use grows => exact .same grows.forced
  | place offered listed heard =>
    rcases heard.cases with hsame | ⟨hheeds, f, hf, hmatches, hdone⟩
    · exact .same hsame
    · exact .completed hheeds hf hmatches (.tile offered rfl listed) hdone
  | keep offered once taken heard =>
    rcases heard.cases with hsame | ⟨hheeds, f, hf, hmatches, hdone⟩
    · exact .same hsame
    · exact .completed hheeds hf hmatches (.draw offered rfl _) hdone
  | trigger asked awaits opens => exact .triggered awaits opens rfl

theorem Step.leaves (h : d.Step book w request drawn d') (hw : w.Attended) (hf : d.forced = some f)
    (matching : f.matches source) (still : d'.forced = d.forced) : Leaves source d d' := by
  have hopen {x : Option ForcedAction} {s : String} (heard : w.Hears s d.forced x)
      (hx : x = d.forced) : s ≠ source := by
    rintro rfl
    have hdone := Option.some.inj (hf.symm.trans (hx.symm.trans (heard.completes hw hf matching)))
    have hstate := congrArg ForcedAction.state hdone
    cases hstate.symm.trans (ForcedAction.matches_iff.mp matching).1
  cases h with
  | choose undecided found grows => exact ⟨(grows.leaves source).draw, (grows.leaves source).tile⟩
  | play found held grows => exact ⟨(grows.leaves source).draw, (grows.leaves source).tile⟩
  | use grows => exact grows.leaves source
  | place offered listed heard =>
    refine ⟨(Leaves.refl source d).draw, fun o ho hs => absurd hs ?_⟩
    obtain rfl := Option.some.inj (offered.symm.trans ho)
    exact hopen heard still
  | keep offered once taken heard =>
    refine ⟨fun o ho hs => absurd hs ?_, (Leaves.refl source d).tile⟩
    obtain rfl := Option.some.inj (offered.symm.trans ho)
    exact hopen heard still
  | trigger asked awaits opens =>
    obtain rfl := Option.some.inj (awaits.forced.symm.trans hf)
    cases awaits.pending.symm.trans (ForcedAction.matches_iff.mp matching).1

end Desk

namespace World

variable {w : World} {p : PlayerId} {d : Desk}

theorem stage?_of_desk? (h : w.desk? p = some d) : w.stage? p = d.forced.map (·.state) := by
  rw [stage?, forced?_of_desk? h]

theorem exists_desk?_of_stage? {s : ForcedState} (h : w.stage? p = some s) :
    ∃ d f, w.desk? p = some d ∧ d.forced = some f ∧ f.state = s := by
  obtain ⟨f, hf, hs⟩ := Option.map_eq_some_iff.mp h
  obtain ⟨d, hd, hforced⟩ := Option.bind_eq_some_iff.mp hf
  exact ⟨d, f, hd, hforced, hs⟩

end World

/-- What the first action of the player asks for was put on offer with this request, and is still on
offer in these worlds. -/
inductive Made.Opened (t : Made) (p : PlayerId) (source : String) (item : LineItem)
    (later : List World) : Prop
  | draw {o : DrawOffer} (kind : item.kind = .cardDraw)
      (cards : o.cards = t.before.deck.take item.amount.toNat)
      (stamped : o.source = source) (opened : t.after.drawOffer? p = some o)
      (still : ∀ v ∈ later, ∃ o', v.drawOffer? p = some o' ∧ o'.source = source ∧ o.cards <+: o'.cards)
  | tile {o : TileOffer} (kind : item.kind = .tilePlacement o.tile)
      (stamped : o.source = source) (opened : t.after.tileOffer? p = some o)
      (still : ∀ v ∈ later, v.tileOffer? p = some o)

theorem Desk.Opens.opened {d d₁ : Desk} {source : CardId} {item : LineItem} {drawn : List CardId}
    {forced : Option ForcedAction} {t : Made} {p : PlayerId} {later : List World}
    (h : d.Opens t.before.deck source item drawn d₁) (hafter : t.after.desk? p = some { d₁ with forced })
    (still : ∀ v ∈ later, ∃ e, v.desk? p = some e ∧ Desk.Leaves source { d₁ with forced } e) :
    t.Opened p source item later := by
  have hdraw : t.after.drawOffer? p = d₁.drawOffer := by rw [World.drawOffer?, hafter]; rfl
  have htile : t.after.tileOffer? p = d₁.tileOffer := by rw [World.tileOffer?, hafter]; rfl
  cases h with
  | draw kind =>
    refine .draw kind rfl rfl hdraw fun v hv => ?_
    obtain ⟨e, he, hleaves⟩ := still v hv
    obtain ⟨o', ho', hs, hcards⟩ := hleaves.draw _ rfl rfl
    exact ⟨o', by rw [World.drawOffer?, he]; exact ho', hs, hcards⟩
  | tile kind fits =>
    refine .tile kind rfl htile fun v hv => ?_
    obtain ⟨e, he, hleaves⟩ := still v hv
    rw [World.tileOffer?, he]
    exact hleaves.tile _ rfl rfl

namespace Made

variable {book : Rulebook} {m : Made} {p : PlayerId}

theorem Enters.changes {s : ForcedState} (h : m.Enters p s) : m.after.stage? p ≠ m.before.stage? p :=
  fun hsame => h.1 (hsame.symm.trans h.2)

theorem Enters.completes (h : m.Enters p .completed)
    (run : m.request.run book m.before = (m.result, m.after)) (finished : Finished m.result) :
    m.result = .ok () ∧ m.before.session.Heeds ∧ ∃ d f source, m.before.desk? p = some d ∧
      d.forced = some f ∧ f.matches source ∧ d.id = p ∧ d.Resolves source m.request := by
  rcases (Request.run_dealt run finished).desk? p with
    hsame | hspoilt | ⟨hok, d, drawn, d', hid, hd, hd', hstep⟩
  · exact absurd (by unfold World.stage? World.forced?; rw [hsame]) h.changes
  · rcases hspoilt.forced p with hsame | ⟨f, source, -, -, hf⟩
    · exact absurd (by unfold World.stage?; rw [hsame]) h.changes
    · have hdone := h.2
      simp [World.stage?, hf, ForcedAction.trigger] at hdone
  · have hdone := h.2
    rw [World.stage?_of_desk? hd'] at hdone
    cases hstep.urges with
    | same hsame =>
      refine absurd ?_ h.changes
      rw [World.stage?_of_desk? hd', World.stage?_of_desk? hd, hsame]
    | created _ _ hcreated pending => simp [hcreated, pending] at hdone
    | triggered _ _ hafter => simp [hafter, ForcedAction.trigger] at hdone
    | completed heeds hf matching resolves => exact ⟨hok, heeds, d, _, _, hd, hf, matching, hid, resolves⟩

theorem Enters.triggers (h : m.Enters p .triggered) (reliable : m.before.store.Reliable)
    (run : m.request.run book m.before = (m.result, m.after)) (finished : Finished m.result) :
    ∃ (d d₁ : Desk) (f : ForcedAction) (corporation : Card) (item : LineItem) (drawn : List CardId),
      d.Awaits book.catalog f corporation item ∧ d.Opens m.before.deck corporation.id item drawn d₁ ∧
      m.after.desk? p = some { d₁ with forced := some (f.trigger corporation.id) } := by
  rcases Request.run_desk? run finished reliable p with hsame | ⟨d, drawn, d', -, hd, hd', hstep⟩
  · exact absurd (by unfold World.stage? World.forced?; rw [hsame]) h.changes
  · have htriggered := h.2
    rw [World.stage?_of_desk? hd'] at htriggered
    cases hstep.urges with
    | same hsame =>
      refine absurd ?_ h.changes
      rw [World.stage?_of_desk? hd', World.stage?_of_desk? hd, hsame]
    | created _ _ hcreated pending => simp [hcreated, pending] at htriggered
    | triggered awaits opens hafter => exact ⟨d, _, _, _, _, _, awaits, opens, hafter ▸ hd'⟩
    | completed _ _ _ _ hdone => simp [hdone] at htriggered

theorem leaves {d : Desk} {f : ForcedAction} {source : String} (attended : m.before.Attended)
    (hd : m.before.desk? p = some d) (hf : d.forced = some f) (matching : f.matches source)
    (run : m.request.run book m.before = (m.result, m.after)) (finished : Finished m.result)
    (still : m.after.stage? p = some .triggered) :
    ∃ d', m.after.desk? p = some d' ∧ d'.forced = some f ∧ d.Leaves source d' := by
  rcases Request.run_desk? run finished attended.reliable p with
    hsame | ⟨e, drawn, d', rfl, he, hd', hstep⟩
  · exact ⟨d, hsame.trans hd, hf, .refl source d⟩
  obtain rfl := Option.some.inj (hd.symm.trans he)
  rw [World.stage?_of_desk? hd'] at still
  cases hstep.urges with
  | same hsame => exact ⟨d', hd', hsame.trans hf, hstep.leaves attended hf matching hsame⟩
  | created _ _ hcreated pending => simp [hcreated, pending] at still
  | triggered awaits =>
    obtain rfl := Option.some.inj (awaits.forced.symm.trans hf)
    cases awaits.pending.symm.trans (ForcedAction.matches_iff.mp matching).1
  | completed _ _ _ _ hdone => simp [hdone] at still

end Made

/-- A request that is made while no call can fail. -/
def Made.served (book : Rulebook) (request : Request) (w : World) : Made :=
  .of book request (w.withOutages fun _ => [])

theorem Made.served_reliable (book : Rulebook) (request : Request) (w : World) :
    (served book request w).before.store.Reliable := fun _ _ ho => absurd ho List.not_mem_nil

theorem Log.served {book : Rulebook} {w₀ w : World} {made : List Made} (h : Log book w₀ made w)
    {request : Request} (hok : (Made.served book request w).result = .ok ()) :
    Log book w₀ (made ++ [.served book request w]) (Made.served book request w).after :=
  h.step _ (.of_ok hok)

namespace Log

variable {book : Rulebook} {w₀ w : World} {made : List Made} {p : PlayerId} {s : ForcedState}

theorem last_entry (h : Log book w₀ made w) (h₀ : w₀.stage? p ≠ some s) (hw : w.stage? p = some s) :
    ∃ xs t ys, made = xs ++ t :: ys ∧ t.Enters p s ∧ ∀ y ∈ ys, ¬ y.Enters p s := by
  induction h with
  | start => exact absurd hw h₀
  | @next made w h m outages before run finished ih =>
    by_cases hm : m.Enters p s
    · exact ⟨made, m, [], rfl, hm, fun _ hy => absurd hy List.not_mem_nil⟩
    · have hbefore : w.stage? p = some s := by
        have hstage : m.before.stage? p = w.stage? p := by rw [before]; rfl
        rw [← hstage]
        exact not_not.mp fun hne => hm ⟨hne, hw⟩
      obtain ⟨xs, t, ys, rfl, ht, hys⟩ := ih hbefore
      refine ⟨xs, t, ys ++ [m], by simp, ht, fun y hy => ?_⟩
      rcases List.mem_append.mp hy with hy | hy
      · exact hys y hy
      · rwa [List.mem_singleton.mp hy]

/-- While an action that has been triggered waits, the selections that it may wait for are left open. -/
theorem waits (h : Log book w₀ made w) (filed : w₀.session.Filed) (watching : w₀.session.Watching)
    {d₀ : Desk} {f : ForcedAction} {source : String} (h₀ : w₀.desk? p = some d₀)
    (hf : d₀.forced = some f) (matching : f.matches source)
    (untriggered : ∀ m ∈ made, ¬ m.Enters p .triggered)
    (reliable : ∀ m ∈ made, m.before.store.Reliable) (heeds : w.session.Heeds)
    (hw : w.stage? p = some .triggered) :
    (∃ d, w.desk? p = some d ∧ d.forced = some f ∧ d₀.Leaves source d) ∧
      ∀ m ∈ made, ∃ d, m.after.desk? p = some d ∧ d₀.Leaves source d := by
  induction h with
  | start => exact ⟨⟨d₀, h₀, hf, .refl source d₀⟩, fun _ hm => absurd hm List.not_mem_nil⟩
  | @next made w h m outages before run finished ih =>
    have hsession : m.before.session = w.session := by rw [before]; rfl
    have hdesk : m.before.desk? p = w.desk? p := by rw [before]; rfl
    have hstage : m.before.stage? p = w.stage? p := by rw [before]; rfl
    have hone : Log book w [m] m.after := .next .start m outages before run finished
    obtain ⟨hfiled, -⟩ := h.watchers filed
    have hheeds := hone.heeds_earlier hfiled heeds
    have hbefore : m.before.stage? p = some .triggered :=
      not_not.mp fun hne => untriggered m (by simp) ⟨hne, hw⟩
    obtain ⟨⟨d, hd, hforced, hleaves⟩, hall⟩ := ih
      (fun m' hm' => untriggered m' (List.mem_append_left _ hm'))
      (fun m' hm' => reliable m' (List.mem_append_left _ hm')) hheeds (hstage ▸ hbefore)
    have hwatching := h.watching_of_heeds filed watching hheeds
    obtain ⟨d', hd', hforced', hmore⟩ := Made.leaves ⟨reliable m (by simp), hsession ▸ hwatching⟩
      (hdesk.trans hd) hforced matching run finished hw
    have hleaves' : d₀.Leaves source d' := hleaves.trans hmore
    refine ⟨⟨d', hd', hforced', hleaves'⟩, fun m' hm' => ?_⟩
    rcases List.mem_append.mp hm' with hm' | hm'
    · exact hall m' hm'
    · obtain rfl := List.mem_singleton.mp hm'
      exact ⟨d', hd', hleaves'⟩

/-- A first action is completed only where its player resolves a selection of the source that its
trigger has set. If it was triggered in the session, then the selection that was opened for it was
still open, as long as no call could fail in between. -/
theorem completed_by {store : Store} {game : GameId} {recording : Bool} {m : Made}
    (h : Log book w₀ (made ++ [m]) w) (start : Session.start store game recording = .ok w₀.session)
    (done : m.Enters p .completed) :
    m.result = .ok () ∧ ∃ d f source, m.before.desk? p = some d ∧ d.forced = some f ∧
      f.state = .triggered ∧ f.source = some source ∧ d.id = p ∧ d.Resolves source m.request ∧
      (w₀.stage? p ≠ some .triggered → ∃ xs t ys, made = xs ++ t :: ys ∧ t.Enters p .triggered ∧
        (∀ y ∈ ys, ¬ y.Enters p .triggered) ∧
        ((∀ y ∈ t :: ys, y.before.store.Reliable) → ∃ corporation item,
          book.catalog.find? f.corporation = some corporation ∧
          corporation.firstActionOutput? = some item ∧ corporation.id = source ∧
          t.Opened p source item (ys.map (·.after) ++ [m.before]))) := by
  obtain ⟨-, u, outages, hu, hm, run, finished⟩ := h.last
  obtain ⟨hok, heeds, d, f, source, hd, hf, matching, hid, resolves⟩ := done.completes run finished
  obtain ⟨hstate, hsource⟩ := ForcedAction.matches_iff.mp matching
  refine ⟨hok, d, f, source, hd, hf, hstate, hsource, hid, resolves, fun h₀ => ?_⟩
  have hdu : u.desk? p = some d := by rw [← hd, hm]; rfl
  have heedsu : u.session.Heeds := by rw [hm] at heeds; exact heeds
  have hstage : u.stage? p = some .triggered := by rw [World.stage?_of_desk? hdu, hf, Option.map_some, hstate]
  obtain ⟨xs, t, ys, rfl, ht, hys⟩ := hu.last_entry h₀ hstage
  refine ⟨xs, t, ys, rfl, ht, hys, fun reliable => ?_⟩
  rw [List.append_cons] at hu
  obtain ⟨_, hpart, hlater⟩ := hu.split
  obtain ⟨rfl, _, _, -, -, runt, finishedt⟩ := hpart.last
  obtain ⟨_, d₁, f₀, corporation, item, drawn, awaits, opens, hafter⟩ :=
    ht.triggers (reliable t (by simp)) runt finishedt
  obtain ⟨-, filed, -⟩ := Session.start_ok start
  have hwatching := hpart.watching_of_heeds filed (Session.start_watching start)
    (hlater.heeds_earlier (hpart.watchers filed).1 heedsu)
  have htriggered : (f₀.trigger corporation.id).matches corporation.id :=
    ForcedAction.matches_iff.mpr ⟨rfl, rfl⟩
  obtain ⟨⟨d', hd', hforced, hleaves⟩, still⟩ := hlater.waits (hpart.watchers filed).1 hwatching hafter rfl
    htriggered hys (fun y hy => reliable y (List.mem_cons_of_mem _ hy)) heedsu hstage
  obtain rfl := Option.some.inj (hd'.symm.trans hdu)
  obtain rfl := Option.some.inj (hforced.symm.trans hf)
  obtain rfl : corporation.id = source := Option.some.inj hsource
  refine ⟨corporation, item, awaits.found, awaits.output, rfl, opens.opened hafter fun v hv => ?_⟩
  rcases List.mem_append.mp hv with hv | hv
  · obtain ⟨y, hy, rfl⟩ := List.mem_map.mp hv
    exact still y hy
  · rw [List.mem_singleton.mp hv]
    exact ⟨d', hd, hleaves⟩

/-- A corporation that builds a city at the start, draws a card with its first action, and can draw one
more in each generation. -/
def guild : Card where
  id := "guild"
  name := "Guild"
  type := .corporation
  behaviors := [.corporationStart [{ kind := .tilePlacement .city, amount := 1 }],
    .firstAction { kind := .cardDraw, amount := 1 }, .manual [] [{ kind := .cardDraw, amount := 1 }]]

def trading : Rulebook where
  catalog := ⟨[guild]⟩
  rules := {}
  depth := 8

def harbour : World where
  store := {
    games := [("game", { id := "game", turn := some "player", board := .hexagon 0 })]
    rosters := [("game", [Player.named "player"])]
    decks := [("game", ["ants", "birds"])] }
  session := (Session.new "game" false).watch

def guildChosen : Made := .served trading (.call (.act "player" (.selectCorporation "guild"))) harbour

def guildTriggered : Made := .served trading (.call (.setPhase .action)) guildChosen.after

theorem guildTriggered_log : Log trading harbour [guildChosen, guildTriggered] guildTriggered.after := by
  have hchosen : Log trading harbour [guildChosen] guildChosen.after :=
    Log.served .start (by decide +kernel)
  exact Log.served hchosen (by decide +kernel)

/-- The draw that the trigger has opened grows before some of it is kept. -/
def guildDraws : Made :=
  .served trading (.call (.act "player" (.useAction "guild" 2 none none))) guildTriggered.after

def guildKeeps : Made := .served trading (.call (.act "player" (.confirmDraw ["birds"]))) guildDraws.after

theorem completed_by_guild : ∃ made m w, Log trading harbour (made ++ [m]) w ∧
    m.Enters "player" .completed ∧ m.request = .call (.act "player" (.confirmDraw ["birds"])) ∧
    (m.before.drawOffer? "player").map (·.cards) = some ["ants", "birds"] ∧
    ∃ (xs : List Made) (t : Made) (ys : List Made) (corporation : Card) (item : LineItem),
      made = xs ++ t :: ys ∧ t.Enters "player" .triggered ∧ corporation.firstActionOutput? = some item ∧
      t.Opened "player" corporation.id item (ys.map (·.after) ++ [m.before]) := by
  have hdraws : Log trading harbour [guildChosen, guildTriggered, guildDraws] guildDraws.after :=
    Log.served guildTriggered_log (by decide +kernel)
  have hkeeps : Log trading harbour ([guildChosen, guildTriggered, guildDraws] ++ [guildKeeps])
    guildKeeps.after := Log.served hdraws (by decide +kernel)
  have hreliable : ∀ m ∈ [guildChosen, guildTriggered, guildDraws], m.before.store.Reliable := by
    intro m hm
    simp only [List.mem_cons, List.not_mem_nil, or_false] at hm
    rcases hm with rfl | rfl | rfl <;> exact Made.served_reliable _ _ _
  have hdone : guildKeeps.Enters "player" .completed := by decide +kernel
  have hstart : Session.start harbour.store "game" false = .ok harbour.session := rfl
  obtain ⟨-, d, f, source, -, -, -, -, -, -, htriggered⟩ := completed_by hkeeps hstart hdone
  obtain ⟨xs, t, ys, hmade, ht, -, hopened⟩ := htriggered (by decide +kernel)
  obtain ⟨corporation, item, -, hitem, rfl, hopened⟩ :=
    hopened fun y hy => hreliable y (hmade ▸ List.mem_append_right _ hy)
  exact ⟨_, _, _, hkeeps, hdone, rfl, by decide +kernel, xs, t, ys, corporation, item, hmade, ht, hitem,
    hopened⟩

def guildBuilds : Made :=
  .served trading (.call (.act "player" (.place (.axial 0 0)))) guildTriggered.after

def forcedDown (c : Call) : List Outage := if c = .write .forced then [{ times := 1 }] else []

/-- The draw is confirmed, but that cannot be recorded of the first action. -/
def guildForgets : Made :=
  .of trading (.call (.act "player" (.confirmDraw ["ants"]))) (guildTriggered.after.withOutages forcedDown)

def guildDrawsAgain : Made :=
  .served trading (.call (.act "player" (.useAction "guild" 2 none none))) guildForgets.after

def guildKeepsAgain : Made :=
  .served trading (.call (.act "player" (.confirmDraw ["birds"]))) guildDrawsAgain.after

/-- What a corporation with a first action to draw cards has built at the start completes it as well,
while the cards are still on offer. If it cannot be recorded that they were taken, then any later draw
of the corporation does. -/
theorem completed_by_other : Session.start harbour.store "game" false = .ok harbour.session ∧
    guild.firstActionOutput? = some { kind := .cardDraw, amount := 1 } ∧
    (∃ made m w, Log trading harbour (made ++ [m]) w ∧ m.Enters "player" .completed ∧
      m.request = .call (.act "player" (.place (.axial 0 0))) ∧
      (w.drawOffer? "player").map (·.cards) = some ["ants"]) ∧
    ∃ made m w, Log trading harbour (made ++ [m]) w ∧ m.Enters "player" .completed ∧
      m.request = .call (.act "player" (.confirmDraw ["birds"])) ∧
      ∃ t ∈ made, t.request = .call (.act "player" (.confirmDraw ["ants"])) ∧ t.result = .ok () := by
  have hbuilds : Log trading harbour ([guildChosen, guildTriggered] ++ [guildBuilds]) guildBuilds.after :=
    Log.served guildTriggered_log (by decide +kernel)
  have hforgets : Log trading harbour [guildChosen, guildTriggered, guildForgets] guildForgets.after :=
    Log.step guildTriggered_log forcedDown (.of_ok (a := ()) (by decide +kernel))
  have hdraws : Log trading harbour [guildChosen, guildTriggered, guildForgets, guildDrawsAgain]
    guildDrawsAgain.after := Log.served hforgets (by decide +kernel)
  have hkeeps : Log trading harbour ([guildChosen, guildTriggered, guildForgets, guildDrawsAgain] ++
    [guildKeepsAgain]) guildKeepsAgain.after := Log.served hdraws (by decide +kernel)
  exact ⟨rfl, rfl, ⟨_, _, _, hbuilds, by decide +kernel, rfl, by decide +kernel⟩, _, _, _, hkeeps,
    by decide +kernel, rfl, guildForgets, by simp, rfl, by decide +kernel⟩

end Log

end MarsRules
