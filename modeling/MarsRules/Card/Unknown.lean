import MarsRules.Card.Basic

/-! The words of a card that the rules do not know and therefore pass over. -/

namespace MarsRules

namespace Behavior

/-- Every line item, those of the choices last. -/
def items (b : Behavior) : List LineItem :=
  b.inputs ++ b.outputs ++ b.choices.flatMap fun c => c.inputs ++ c.outputs

def unknownWords (b : Behavior) : List String :=
  let condition := match b.condition? with
    | some { kind := .unknown w, .. } => ["condition:" ++ w]
    | _ => []
  condition ++ b.items.filterMap fun item => match item.kind with
    | .unknown w => some ("resource:" ++ w)
    | _ => none

end Behavior

namespace Card

def unknownMentions (c : Card) : List String :=
  (c.tags.filter Tag.isUnknown).map (fun t => "tag:" ++ t.word) ++
  (c.requirements.filter (·.kind.isUnknown)).map (fun r => "requirement:" ++ r.kind.word) ++
  c.behaviors.flatMap Behavior.unknownWords ++
  (c.victoryPoints.filter (·.kind.isUnknown)).map fun v => "vp:" ++ v.kind.word

/-- Each unknown word once, behind the place it stands in, in alphabetical order. -/
def unknownWords (c : Card) : List String :=
  (c.unknownMentions.mergeSort fun a b => a ≤ b).eraseDups

end Card

end MarsRules
