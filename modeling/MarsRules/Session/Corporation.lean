import MarsRules.Session.Play

/-! Choosing a corporation: it is recorded, its start effects apply, and what it asks for first is
left pending. -/

namespace MarsRules

/-- The first action a corporation leaves pending. -/
def Card.forcedAction? (c : Card) : Option ForcedAction := do
  let behavior ← (c.shaped .firstAction).head?
  let item ← behavior.outputs.head?
  return {
    corporation := c.id
    kind := item.kind
    description := s!"{c.name}: {item.amount} {item.kind.word}" }

def Card.checkCorporation (c : Card) : Except Refusal Unit :=
  if c.isCorporation then .ok ()
  else .error (.invalidAction s!"{c.name} ({c.id}) is not a corporation")

/-- A corporation is chosen once. -/
def Player.checkUndecided (p : Player) : Except Refusal Unit :=
  match p.corporation with
  | none => .ok ()
  | some existing =>
    .error (.invalidAction s!"player {p.id} already selected corporation {existing}")

namespace Engine

def selectCorporation (book : Rulebook) (p : PlayerId) (id : CardId) : Engine Unit := do
  let card ← findCard book.catalog id
  card.checkCorporation
  (← readPlayer p).checkUndecided
  update p (.corporation (some card.id))
  let events ← (commitCard book.rules p card none none).orElse (update p (.corporation none))
  announce book events
  match card.forcedAction? with
  | some forced => update p (.forced (some forced))
  | none => return

end Engine

end MarsRules
