import MarsRules.Session.Tiles

/-! What a corporation makes a player do first: pending from the choice of the corporation,
triggered when the action phase finds the player at turn, completed by the selection that answers
it. -/

namespace MarsRules

def Card.firstActionOutput? (c : Card) : Option LineItem :=
  (c.shaped .firstAction).findSome? (·.outputs.head?)

namespace Engine

def offerForced (p : PlayerId) (source : CardId) (item : LineItem) : Engine Unit := do
  match item.kind with
  | .cardDraw =>
    let n := item.amount.toNat
    let cards ← Store.drawCards (← gameId) n
    update p (.drawOffer (some { cards, free := n, maxBought := 0, price := 0, source }))
  | .tilePlacement tile =>
    let game ← readGame
    let hexes := game.board.legalHexes tile p
    if hexes.isEmpty then
      refuse (.invalidAction s!"no legal hex for forced {tile.word} placement")
    update p (.tileOffer (some { tile, hexes, source }))
  | other => refuse (.unsupported s!"forced first action of kind {other.word}")

/-- Triggers a forced action that is still pending and says whether it did. -/
def triggerForced (catalog : Catalog) (p : PlayerId) : Engine Bool := do
  let player ← readPlayer p
  match player.forced with
  | none => return false
  | some forced =>
    if forced.state ≠ .pending then return false
    let corporation ← findCard catalog forced.corporation
    match corporation.firstActionOutput? with
    | none =>
      refuse (.invalidAction s!"corporation {corporation.id} has no forced first action")
    | some item =>
      offerForced p corporation.id item
      update p (.forced (some
        { forced with state := .triggered, source := some corporation.id }))
      return true

/-- Completes a triggered action that waits for a selection of this source. -/
def completeForced (p : PlayerId) (source : String) : Engine Unit := do
  let player ← readPlayer p
  match player.forced with
  | none => return
  | some forced =>
    if forced.matches source then update p (.forced (some { forced with state := .completed }))

def watchForced (catalog : Catalog) (e : Event) : Engine Unit := do
  if e.game ≠ (← gameId) then return
  match e with
  | .phaseChanged e =>
    if e.after = .action then
      match (← readGame).turn with
      | some p => let _ ← triggerForced catalog p
      | none => return
  | .drawConfirmed e => completeForced e.player e.source
  | .tilePlaced e =>
    match e.source with
    | some source => completeForced e.player source
    | none => return
  | _ => return

end Engine

end MarsRules
