import MarsRules.Session.Publish

/-! Keeping some of the drawn cards: the first are free, the next are bought, the others go. -/

namespace MarsRules

namespace DrawOffer

/-- Each card has to be among the drawn ones and picked once. -/
def checkPicked (o : DrawOffer) : (before : List CardId) → List CardId → Except Refusal Unit
  | _, [] => .ok ()
  | before, card :: rest =>
    if !o.cards.contains card then .error (.invalidSelection s!"card {card} was not drawn")
    else if before.contains card then .error (.invalidSelection s!"card {card} selected twice")
    else o.checkPicked (before ++ [card]) rest

def bought (o : DrawOffer) (n : Nat) : Nat := n - o.free

def cost (o : DrawOffer) (n : Nat) : Int := wrapInt32 (o.bought n * o.price)

/-- Whether these cards may be kept by someone who holds `credits`. -/
def check (o : DrawOffer) (picked : List CardId) (credits : Int) : Except Refusal Unit := do
  o.checkPicked [] picked
  let n := picked.length
  let limit := addNat32 o.free o.maxBought
  if limit < n then throw (.invalidSelection s!"selected {n} cards, at most {limit} allowed")
  if 0 < o.cost n ∧ credits < o.cost n then
    throw (.insufficientResources
      s!"buying {o.bought n} cards costs {o.cost n} credits, have {credits}")

end DrawOffer

namespace Engine

/-- Everything of the choice but its announcement. The writes are not a transaction. -/
def commitDraw (p : PlayerId) (picked : List CardId) : Engine Event := do
  let player ← readPlayer p
  match player.drawOffer with
  | none => refuse (.invalidSelection "no card draw is pending")
  | some offer =>
    offer.check picked player.resources.credits
    let cost := offer.cost picked.length
    if 0 < cost then update p (.resources (player.resources.add .credits (-cost)))
    update p (.hand (player.hand ++ picked))
    update p (.drawOffer none)
    return .drawConfirmed
      { game := ← gameId, player := p, source := offer.source, cards := picked }

def confirmDraw (book : Rulebook) (p : PlayerId) (picked : List CardId) : Engine Unit := do
  announce book [← commitDraw p picked]

end Engine

end MarsRules
