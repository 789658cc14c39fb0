import MarsRules.Card.Tag
import MarsRules.Integer
import MarsRules.Resource.Kind

/-! What a card does: behaviors, each with triggers, inputs, outputs and choices. The first trigger
alone settles the shape of a behavior. -/

namespace MarsRules

/-- Where a condition or requirement looks. -/
inductive Location where
  | anywhere | mars | other
deriving DecidableEq, Repr, Inhabited

namespace Location

def word : Location → String
  | anywhere => "anywhere"
  | mars => "mars"
  | other => "other"

/-- Any place without a word of its own is another place. -/
def ofWord (w : String) : Location := (termOf? word [anywhere, mars] w).getD other

end Location

/-- Whom a line item is aimed at. -/
inductive Target where
  | selfPlayer | selfCard | anyCard | anyPlayer | opponent | any | none
deriving DecidableEq, Repr, Inhabited

namespace Target

def all : List Target := [selfPlayer, selfCard, anyCard, anyPlayer, opponent, any, none]

def word : Target → String
  | selfPlayer => "self-player"
  | selfCard => "self-card"
  | anyCard => "any-card"
  | anyPlayer => "any-player"
  | opponent => "opponent"
  | any => "any"
  | none => "none"

/-- The target as messages name it. -/
def title : Target → String
  | selfPlayer => "SelfPlayer"
  | selfCard => "SelfCard"
  | anyCard => "AnyCard"
  | anyPlayer => "AnyPlayer"
  | opponent => "Opponent"
  | any => "Any"
  | none => "None"

def ofWord? (w : String) : Option Target := termOf? word all w

end Target

inductive TriggerType where
  | auto | manual | corporationFirstAction | corporationStart
deriving DecidableEq, Repr, Inhabited

namespace TriggerType

def all : List TriggerType := [auto, manual, corporationFirstAction, corporationStart]

def word : TriggerType → String
  | auto => "auto"
  | manual => "manual"
  | corporationFirstAction => "auto-corporation-first-action"
  | corporationStart => "auto-corporation-start"

def ofWord? (w : String) : Option TriggerType := termOf? word all w

end TriggerType

/-- What has to happen for a passive effect to fire. -/
inductive ConditionKind where
  | oceanPlaced | temperatureRaise | oxygenRaise | cityPlaced | greeneryPlaced | tilePlaced
  | cardPlayed | tagPlayed | placementBonusGained
  | unknown (word : String)
deriving DecidableEq, Repr, Inhabited

namespace ConditionKind

def known : List ConditionKind :=
  [oceanPlaced, temperatureRaise, oxygenRaise, cityPlaced, greeneryPlaced, tilePlaced, cardPlayed,
    tagPlayed, placementBonusGained]

def word : ConditionKind → String
  | oceanPlaced => "ocean-placed"
  | temperatureRaise => "temperature-raise"
  | oxygenRaise => "oxygen-raise"
  | cityPlaced => "city-placed"
  | greeneryPlaced => "greenery-placed"
  | tilePlaced => "tile-placed"
  | cardPlayed => "card-played"
  | tagPlayed => "tag-played"
  | placementBonusGained => "placement-bonus-gained"
  | unknown w => w

def ofWord : String → ConditionKind
  | "ocean-placed" => oceanPlaced
  | "temperature-raise" => temperatureRaise
  | "oxygen-raise" => oxygenRaise
  | "city-placed" => cityPlaced
  | "greenery-placed" => greeneryPlaced
  | "tile-placed" => tilePlaced
  | "card-played" => cardPlayed
  | "tag-played" => tagPlayed
  | "placement-bonus-gained" => placementBonusGained
  | w => unknown w

theorem word_ofWord (w : String) : (ofWord w).word = w := by
  unfold ofWord
  split <;> rfl

def isUnknown : ConditionKind → Bool
  | unknown _ => true
  | _ => false

end ConditionKind

structure Condition where
  kind : ConditionKind
  location : Option Location := none
  /-- Only cards with one of these tags count, if any is listed. -/
  tags : List Tag := []
  /-- Only bonuses with one of these count, if any is listed. -/
  resources : List ResourceKind := []
deriving DecidableEq, Repr, Inhabited

structure Trigger where
  type : TriggerType
  condition : Option Condition := none
deriving DecidableEq, Repr, Inhabited

/-- An amount for each of something. -/
structure Scaling where
  kind : ResourceKind
  amount : Int
  location : Option Location := none
  target : Option Target := none
  tag : Option Tag := none
deriving DecidableEq, Repr, Inhabited

/-- One input or output. -/
structure LineItem where
  kind : ResourceKind
  amount : Int
  target : Option Target := none
  tags : List Tag := []
  resources : List ResourceKind := []
  per : Option Scaling := none
deriving DecidableEq, Repr, Inhabited

/-- A reduction that some other player has to bear. -/
def LineItem.chargesOther (item : LineItem) : Bool :=
  item.amount < 0 && (item.target == some .opponent || item.target == some .anyPlayer)

/-- An input as the change that it makes. -/
def LineItem.charge (item : LineItem) : LineItem := { item with amount := wrapInt32 (-item.amount) }

structure Choice where
  inputs : List LineItem := []
  outputs : List LineItem := []
deriving DecidableEq, Repr, Inhabited

/-- What a behavior becomes when its card is played. -/
inductive Shape where
  /-- Applied once. -/
  | immediate
  /-- An action the player may use. -/
  | manual
  /-- An effect that waits for an event. -/
  | passive
  /-- What a corporation must do first. -/
  | firstAction
  | inert
deriving DecidableEq, Repr, Inhabited

structure Behavior where
  triggers : List Trigger := []
  inputs : List LineItem := []
  outputs : List LineItem := []
  choices : List Choice := []
deriving DecidableEq, Repr, Inhabited

namespace Behavior

def triggered (type : TriggerType) (condition : Option Condition) (inputs outputs : List LineItem) :
    Behavior :=
  { triggers := [{ type, condition }], inputs, outputs }

def immediate (outputs : List LineItem) : Behavior := triggered .auto none [] outputs
def manual (inputs outputs : List LineItem) : Behavior := triggered .manual none inputs outputs
def passive (condition : Condition) (outputs : List LineItem) : Behavior :=
  triggered .auto (some condition) [] outputs
def corporationStart (outputs : List LineItem) : Behavior :=
  triggered .corporationStart none [] outputs
def firstAction (output : LineItem) : Behavior :=
  triggered .corporationFirstAction none [] [output]

def condition? (b : Behavior) : Option Condition := b.triggers.head?.bind (·.condition)

def shape (b : Behavior) : Shape :=
  match b.triggers with
  | [] => .inert
  | { type := .manual, .. } :: _ => .manual
  | { type := .auto, condition := some _ } :: _ => .passive
  | { type := .auto, condition := none } :: _ | { type := .corporationStart, .. } :: _ => .immediate
  | { type := .corporationFirstAction, .. } :: _ => .firstAction

/-- The outputs that are standing modifiers. -/
def modifiers (b : Behavior) : List LineItem := b.outputs.filter (·.kind.isModifier)

def choice? (b : Behavior) (index : Option Nat) : Option Choice := index.bind (b.choices[·]?)

/-- The inputs, then those of the choice that was made. -/
def inputsWith (b : Behavior) (index : Option Nat) : List LineItem :=
  b.inputs ++ (b.choice? index).elim [] (·.inputs)

def outputsWith (b : Behavior) (index : Option Nat) : List LineItem :=
  b.outputs ++ (b.choice? index).elim [] (·.outputs)

end Behavior

end MarsRules
