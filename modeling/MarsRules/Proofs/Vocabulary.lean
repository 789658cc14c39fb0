import MarsRules.CommandLine.Report
import MarsRules.Proofs.Plans
import MarsRules.Proofs.Substitutes
import MarsRules.Session.Play
import MarsRules.Session.Subscriptions

/-! Words that the rules do not know. The places where one of them is passed over (`Card.FailsOpen`)
against the places that a strict check of the catalog looks at: it misses the resources that
requirements, payment substitutes and bonus conditions name (`CommandLine.strict_failsOpen_iff`). -/

namespace MarsRules

namespace Requirement

/-- It is met by everyone, whatever its bounds are. -/
def Idle (r : Requirement) : Prop :=
  ∀ min max cat rules game player, { r with min, max }.check cat rules game player = .ok ()

theorem check_named {r : Requirement} (hresource : r.kind ≠ .resource)
    (hproduction : r.kind ≠ .production) (named : Option ResourceKind) (cat : Catalog) (rules : Rules) (game : Game) (player : Player) :
    { r with resource := named }.check cat rules game player = r.check cat rules game player := by
  rcases r with ⟨kind, _, _, _, _, _⟩
  cases kind <;> first | rfl | contradiction

theorem idle_of_unknown {r : Requirement} (h : r.kind.isUnknown) : r.Idle := by
  intro min max cat rules game player
  cases hk : r.kind with
  | unknown w => simp [check]
  | _ => simp [RequirementKind.isUnknown, hk] at h

theorem idle_by_name_iff {r : Requirement} {k : ResourceKind} (named : r.resource = some k)
    (unknown : k.isUnknown) :
    (r.Idle ∧ ∃ other, ¬ { r with resource := some other }.Idle) ↔ r.kind = .resource := by
  obtain ⟨w, rfl⟩ := ResourceKind.eq_unknown unknown
  constructor
  · rintro ⟨hidle, other, hother⟩
    refine Decidable.byContradiction fun hresource => ?_
    by_cases hproduction : r.kind = .production
    · have h := hidle none none {} {} default default
      simp only [check, hproduction, productions, named] at h
      cases h
    · refine hother fun min max cat rules game player => ?_
      exact (check_named (r := { r with min, max }) hresource hproduction (some other) cat rules game
        player).trans (hidle min max cat rules game player)
  · intro hk
    refine ⟨fun min max cat rules game player => by simp [check, hk, named], .resource .credits, ?_⟩
    intro h
    have h := h (some 1) none {} {} default default
    simp only [check, hk] at h
    cases h

end Requirement

/-- A word of the card that the rules do not know stands where it is passed over, and what it stands in
comes to nothing for it. -/
inductive Card.FailsOpen (c : Card) : Prop
  | requirementKind (r : Requirement) (mem : r ∈ c.requirements) (unknown : r.kind.isUnknown)
      (idle : r.Idle)
  | requirementResource (r : Requirement) (mem : r ∈ c.requirements) (k : ResourceKind)
      (named : r.resource = some k) (unknown : k.isUnknown) (idle : r.Idle)
      (heeded : ∃ other, ¬ { r with resource := some other }.Idle)
  | item (b : Behavior) (mem : b ∈ c.behaviors) (choice : Option Nat) (item : LineItem)
      (applied : item ∈ b.inputsWith choice ++ b.outputsWith choice) (unknown : item.kind.isUnknown)
      (skipped : ∀ (plan : Plan) scope,
        plan.addInput item scope = .ok plan ∧ plan.addOutput item scope = .ok plan)
  | passive (b : Behavior) (mem : b ∈ c.behaviors) (waits : b.shape = .passive)
      (deaf : ∀ (s : Session) owner index, (s.subscribe owner ⟨c.id, c.name, index, b⟩).1 = none)
  | substitute (b : Behavior) (mem : b ∈ c.behaviors) (item : LineItem) (standing : item ∈ b.modifiers)
      (kind : item.kind = .paymentSubstitute) (k : ResourceKind) (listed : k ∈ item.resources)
      (unknown : k.isUnknown)
      (worthless : ∀ p : Player, p.modifiers .paymentSubstitute = [{ item with resources := [k] }] →
        p.substitutes = [])
  | bonus (b : Behavior) (mem : b ∈ c.behaviors) (condition : Condition)
      (waits : b.condition? = some condition) (kind : condition.kind = .placementBonusGained)
      (k : ResourceKind) (listed : k ∈ condition.resources) (unknown : k.isUnknown)
      (unmet : ∀ e, { condition with resources := [k] }.isMetBy (.bonusGained e) = false)
  | points (v : VictoryPoints) (mem : v ∈ c.victoryPoints) (unknown : v.kind.isUnknown)
      (unawarded : ∀ player choice target plan,
        Plan.ofCard { c with victoryPoints := [v] } player choice target = .ok plan → plan.points = 0)

/-- The card names a resource that the rules do not know: in a requirement on the pool, for payments, or
in a condition on a bonus. -/
def Card.NamesUnknown (c : Card) : Prop :=
  (∃ r ∈ c.requirements, r.kind = .resource ∧ ∃ k, r.resource = some k ∧ k.isUnknown) ∨
  (∃ b ∈ c.behaviors, ∃ item ∈ b.modifiers, item.kind = .paymentSubstitute ∧
    ∃ k ∈ item.resources, k.isUnknown) ∨
  ∃ b ∈ c.behaviors, ∃ condition, b.condition? = some condition ∧
    condition.kind = .placementBonusGained ∧ ∃ k ∈ condition.resources, k.isUnknown

/-- A word that the rules do not know stands in a place that is reported, other than among the tags. -/
def Card.Reported (c : Card) : Prop :=
  (∃ r ∈ c.requirements, r.kind.isUnknown) ∨
  (∃ b ∈ c.behaviors, ∃ item ∈ b.items, item.kind.isUnknown) ∨
  (∃ b ∈ c.behaviors, b.shape = .passive ∧ ∃ condition, b.condition? = some condition ∧
    condition.kind.isUnknown) ∨
  ∃ v ∈ c.victoryPoints, v.kind.isUnknown

theorem Behavior.mem_items {b : Behavior} {item : LineItem} :
    item ∈ b.items ↔ ∃ choice, item ∈ b.inputsWith choice ++ b.outputsWith choice := by
  simp only [items, inputsWith, outputsWith, List.mem_append, List.mem_flatMap]
  constructor
  · rintro ((h | h) | ⟨c, hc, h⟩)
    · exact ⟨none, .inl (.inl h)⟩
    · exact ⟨none, .inr (.inl h)⟩
    · obtain ⟨index, hindex⟩ := List.getElem?_of_mem hc
      have hchoice : b.choice? (some index) = some c := hindex
      refine ⟨some index, ?_⟩
      rw [hchoice]
      exact h.imp .inr .inr
  · rintro ⟨choice, h⟩
    cases hc : b.choice? choice with
    | none =>
      simp only [hc, Option.elim_none, List.not_mem_nil, or_false] at h
      exact .inl h
    | some c =>
      have hmem : c ∈ b.choices := by
        obtain ⟨index, -, hindex⟩ := Option.bind_eq_some_iff.mp hc
        exact List.mem_of_getElem? hindex
      rw [hc] at h
      rcases h with (h | h) | h | h
      · exact .inl (.inl h)
      · exact .inr ⟨c, hmem, .inl h⟩
      · exact .inl (.inr h)
      · exact .inr ⟨c, hmem, .inr h⟩

theorem Plan.skips_unknown {item : LineItem} (h : item.kind.isUnknown) (plan : Plan) (scope : Scope) :
    plan.addInput item scope = .ok plan ∧ plan.addOutput item scope = .ok plan := by
  obtain ⟨w, hw⟩ := ResourceKind.eq_unknown h
  simp [addInput, addOutput, hw]

theorem Plan.points_unknown {c : Card} {v : VictoryPoints} (h : v.kind.isUnknown) {player : Player}
    {choice : Option Nat} {target : Option CardId} {plan : Plan}
    (hplan : ofCard { c with victoryPoints := [v] } player choice target = .ok plan) :
    plan.points = 0 := by
  obtain ⟨p, -, hplan⟩ := except_bind_eq_ok.mp hplan
  cases hplan
  cases hk : v.kind <;> simp_all [VictoryKind.isUnknown, total]

theorem Session.subscribe_eq_none_iff {b : Behavior} (waits : b.shape = .passive) (s : Session)
    (owner : PlayerId) {e : CardEffect} (he : e.behavior = b) :
    (s.subscribe owner e).1 = none ↔
      ∃ condition, b.condition? = some condition ∧ condition.kind.isUnknown := by
  obtain ⟨condition, hcondition⟩ : ∃ condition, b.condition? = some condition := by
    unfold Behavior.shape at waits
    split at waits <;> simp_all [Behavior.condition?]
  have hheard : e.eventKind? = condition.kind.eventKind? := by
    rw [CardEffect.eventKind?, he, hcondition, Option.bind_some]
  have hkind : condition.kind.eventKind? = none ↔ condition.kind.isUnknown := by
    cases condition.kind <;> simp [ConditionKind.eventKind?, ConditionKind.isUnknown]
  unfold subscribe
  rw [hheard]
  cases h : condition.kind.eventKind? <;> simp_all

namespace Card

variable {c : Card}

theorem unknownWords_eq_nil : c.unknownWords = [] ↔ c.unknownMentions = [] := by
  have hperm := c.unknownMentions.mergeSort_perm fun a b => a ≤ b
  unfold unknownWords
  constructor
  · intro h
    cases hsorted : c.unknownMentions.mergeSort fun a b => a ≤ b with
    | nil => rwa [hsorted, List.nil_perm] at hperm
    | cons w rest =>
      rw [hsorted, List.eraseDups_cons] at h
      cases h
  · intro h
    simp [h]

theorem failsOpen_iff : c.FailsOpen ↔ c.Reported ∨ c.NamesUnknown := by
  constructor
  · intro hopen
    cases hopen with
    | requirementKind r mem unknown => exact .inl (.inl ⟨r, mem, unknown⟩)
    | requirementResource r mem k named unknown idle heeded =>
      have hkind := (Requirement.idle_by_name_iff named unknown).mp ⟨idle, heeded⟩
      exact .inr (.inl ⟨r, mem, hkind, k, named, unknown⟩)
    | item b mem choice item applied unknown =>
      exact .inl (.inr (.inl ⟨b, mem, item, Behavior.mem_items.mpr ⟨choice, applied⟩, unknown⟩))
    | passive b mem waits deaf =>
      have hunknown := (Session.subscribe_eq_none_iff waits default default
        (e := ⟨c.id, c.name, 0, b⟩) rfl).mp (deaf _ _ _)
      exact .inl (.inr (.inr (.inl ⟨b, mem, waits, hunknown⟩)))
    | substitute b mem item standing kind k listed unknown =>
      exact .inr (.inr (.inl ⟨b, mem, item, standing, kind, k, listed, unknown⟩))
    | bonus b mem condition waits kind k listed unknown =>
      exact .inr (.inr (.inr ⟨b, mem, condition, waits, kind, k, listed, unknown⟩))
    | points v mem unknown => exact .inl (.inr (.inr (.inr ⟨v, mem, unknown⟩)))
  · rintro ((⟨r, mem, unknown⟩ | ⟨b, mem, item, hitem, unknown⟩ | ⟨b, mem, waits, hunknown⟩ |
      ⟨v, mem, unknown⟩) | ⟨r, mem, hkind, k, named, unknown⟩ |
      ⟨b, mem, item, standing, kind, k, listed, unknown⟩ |
      ⟨b, mem, condition, waits, kind, k, listed, unknown⟩)
    · exact .requirementKind r mem unknown (Requirement.idle_of_unknown unknown)
    · obtain ⟨choice, applied⟩ := Behavior.mem_items.mp hitem
      exact .item b mem choice item applied unknown (Plan.skips_unknown unknown)
    · exact .passive b mem waits fun s owner index =>
        (Session.subscribe_eq_none_iff waits s owner rfl).mpr hunknown
    · exact .points v mem unknown fun _ _ _ _ => Plan.points_unknown unknown
    · obtain ⟨idle, heeded⟩ := (Requirement.idle_by_name_iff named unknown).mpr hkind
      exact .requirementResource r mem k named unknown idle heeded
    · refine .substitute b mem item standing kind k listed unknown fun p hp => ?_
      obtain ⟨w, rfl⟩ := ResourceKind.eq_unknown unknown
      simp [Player.substitutes, hp]
    · refine .bonus b mem condition waits kind k listed unknown fun e => ?_
      obtain ⟨w, rfl⟩ := ResourceKind.eq_unknown unknown
      simp [Condition.isMetBy]

theorem not_reported_of_unknownWords (h : c.unknownWords = []) : ¬ c.Reported := by
  have h := unknownWords_eq_nil.mp h
  simp only [unknownMentions, List.append_eq_nil_iff, List.map_eq_nil_iff, List.filter_eq_nil_iff,
    List.flatMap_eq_nil_iff, Bool.not_eq_true] at h
  obtain ⟨⟨⟨-, hrequirements⟩, hbehaviors⟩, hpoints⟩ := h
  rintro (⟨r, mem, unknown⟩ | ⟨b, mem, item, hitem, unknown⟩ |
    ⟨b, mem, -, condition, hcondition, unknown⟩ | ⟨v, mem, unknown⟩)
  · simp [hrequirements r mem] at unknown
  · have hwords := (List.append_eq_nil_iff.mp (hbehaviors b mem)).2
    have hword := List.filterMap_eq_nil_iff.mp hwords item hitem
    obtain ⟨w, hw⟩ := ResourceKind.eq_unknown unknown
    simp [hw] at hword
  · have hwords := (List.append_eq_nil_iff.mp (hbehaviors b mem)).1
    rw [hcondition] at hwords
    cases condition with
    | mk kind location tags resources => cases kind <;> simp_all [ConditionKind.isUnknown]
  · simp [hpoints v mem] at unknown

end Card

namespace CommandLine

theorem readCatalog_of_list {path text : String} {cards : List Card}
    (h : (Json.parse? text >>= Json.asList? Card.ofJson?) = some cards) :
    readCatalog path (some text) = .ok (Catalog.ofList cards) := by
  simp only [readCatalog, Catalog.ofText, h]

theorem strict_run {path : String} {file : Option String} {cat : Catalog}
    (h : readCatalog path file = .ok cat) : (Command.check path true).run file =
      if cat.flagged.isEmpty then { exit := 0, lines := cat.vocabulary path }
      else { exit := 1, lines := cat.vocabulary path, failure := cat.flaggedText } := by
  simp only [Command.run, h]
  cases cat.flagged.isEmpty <;> rfl

theorem strict_exit {path : String} {file : Option String}
    (h : ((Command.check path true).run file).exit = 0) :
    ∃ cat, readCatalog path file = .ok cat ∧ ∀ c ∈ cat.cards, ¬ c.Reported := by
  cases hread : readCatalog path file with
  | error failure => simp [Command.run, hread] at h
  | ok cat =>
    rw [strict_run hread] at h
    refine ⟨cat, rfl, fun c hc => Card.not_reported_of_unknownWords ?_⟩
    have hflagged : cat.flagged = [] := by
      split at h
      · next hnone => exact List.isEmpty_iff.mp hnone
      · cases h
    simpa using (List.filter_eq_nil_iff.mp hflagged) c hc

/-- Of the words that the rules do not know, the engine passes over no others, in a catalog that a strict
check finds nothing wrong with, than names of resources: in a requirement on the pool, for payments or in
a condition on a bonus. -/
theorem strict_failsOpen_iff {path : String} {file : Option String}
    (h : ((Command.check path true).run file).exit = 0) :
    ∃ cat, readCatalog path file = .ok cat ∧ ∀ c ∈ cat.cards, c.FailsOpen ↔ c.NamesUnknown := by
  obtain ⟨cat, hcat, hreported⟩ := strict_exit h
  refine ⟨cat, hcat, fun c hc => ?_⟩
  rw [Card.failsOpen_iff, or_iff_right (hreported c hc)]

/-- A card for those who hold gold, which the rules do not know. -/
def vault : Card where
  id := "vault"
  name := "Vault"
  type := .event
  requirements := [{ kind := .resource, min := some 5, resource := some (.unknown "gold") }]

def vaultText : String :=
  "[\x7b\"id\": \"vault\", \"name\": \"Vault\", \"type\": \"event\", \"requirements\": " ++
    "[\x7b\"type\": \"resource\", \"min\": 5, \"resource\": \"gold\"\x7d]\x7d]"

theorem readCatalog_vault : readCatalog "cards.json" (some vaultText) = .ok ⟨[vault]⟩ := by
  have hread : (Json.parse? vaultText >>= Json.asList? Card.ofJson?) = some [vault] := by decide +kernel
  exact readCatalog_of_list hread

theorem strict_vault : (Command.check "cards.json" true).run (some vaultText) =
    { exit := 0, lines := ["cards.json: all 1 cards use known vocabulary"] } := by
  rw [strict_run readCatalog_vault]
  decide +kernel

theorem strict_failsOpen_iff_vault :
    ((Command.check "cards.json" true).run (some vaultText)).exit = 0 ∧
      ∃ cat, readCatalog "cards.json" (some vaultText) = .ok cat ∧
        ∀ c ∈ cat.cards, c.FailsOpen ↔ c.NamesUnknown :=
  have h := congrArg Outcome.exit strict_vault
  ⟨h, strict_failsOpen_iff h⟩

/-- Nothing is found wrong with the card, and everyone may play it, with gold or without. -/
theorem strict_overlooks_vault :
    (Command.check "cards.json" true).run (some vaultText) =
        { exit := 0, lines := ["cards.json: all 1 cards use known vocabulary"] } ∧
      readCatalog "cards.json" (some vaultText) = .ok ⟨[vault]⟩ ∧ vault.FailsOpen ∧
      ∀ cat rules game player, vault.checkRequirements cat rules game player = .ok () := by
  refine ⟨strict_vault, readCatalog_vault, ?_, fun _ _ _ _ => rfl⟩
  refine .requirementResource _ (List.mem_singleton_self _) (.unknown "gold") rfl rfl
    (fun _ _ _ _ _ _ => rfl) ⟨.resource .credits, fun h => ?_⟩
  have h := h (some 1) none {} {} default default
  cases h

end CommandLine

end MarsRules
