import MarsRules.Card.Behavior

/-! Cards of the catalog. -/

namespace MarsRules

abbrev GameId := String
abbrev PlayerId := String
abbrev CardId := String

inductive CardType where
  | corporation | automated | active | event | prelude
deriving DecidableEq, Repr, Inhabited

namespace CardType

def all : List CardType := [corporation, automated, active, event, prelude]

def word : CardType → String
  | corporation => "corporation"
  | automated => "automated"
  | active => "active"
  | event => "event"
  | prelude => "prelude"

def ofWord? (w : String) : Option CardType := termOf? word all w

end CardType

inductive RequirementKind where
  | temperature | oxygen | oceans | venus | cities | greeneries | tags | production
  | terraformRating | resource
  | unknown (word : String)
deriving DecidableEq, Repr, Inhabited

namespace RequirementKind

def known : List RequirementKind :=
  [temperature, oxygen, oceans, venus, cities, greeneries, tags, production, terraformRating,
    resource]

def word : RequirementKind → String
  | temperature => "temperature"
  | oxygen => "oxygen"
  | oceans => "oceans"
  | venus => "venus"
  | cities => "cities"
  | greeneries => "greeneries"
  | tags => "tags"
  | production => "production"
  | terraformRating => "tr"
  | resource => "resource"
  | unknown w => w

def ofWord : String → RequirementKind
  | "temperature" => temperature
  | "oxygen" => oxygen
  | "oceans" => oceans
  | "venus" => venus
  | "cities" => cities
  | "greeneries" => greeneries
  | "tags" => tags
  | "production" => production
  | "tr" => terraformRating
  | "resource" => resource
  | w => unknown w

theorem word_ofWord (w : String) : (ofWord w).word = w := by
  unfold ofWord
  split <;> rfl

def isUnknown : RequirementKind → Bool
  | unknown _ => true
  | _ => false

end RequirementKind

/-- Bounds that something has to meet for the card to be played; both are inclusive. -/
structure Requirement where
  kind : RequirementKind
  min : Option Int := none
  max : Option Int := none
  location : Option Location := none
  tag : Option Tag := none
  resource : Option ResourceKind := none
deriving DecidableEq, Repr, Inhabited

inductive VictoryKind where
  | fixed | once | per
  | unknown (word : String)
deriving DecidableEq, Repr, Inhabited

namespace VictoryKind

def known : List VictoryKind := [fixed, once, per]

def word : VictoryKind → String
  | fixed => "fixed"
  | once => "once"
  | per => "per"
  | unknown w => w

def ofWord : String → VictoryKind
  | "fixed" => fixed
  | "once" => once
  | "per" => per
  | w => unknown w

theorem word_ofWord (w : String) : (ofWord w).word = w := by
  unfold ofWord
  split <;> rfl

def isUnknown : VictoryKind → Bool
  | unknown _ => true
  | _ => false

end VictoryKind

/-- Victory points and when they count. -/
structure VictoryPoints where
  amount : Int
  kind : VictoryKind
  maxTrigger : Option Int := none
  per : Option Scaling := none
deriving DecidableEq, Repr, Inhabited

/-- The tokens a card can hold and those it starts with. -/
structure TokenPool where
  kind : ResourceKind
  capacity : Option Int := none
  starting : Int := 0
deriving DecidableEq, Repr, Inhabited

structure Card where
  id : CardId
  name : String
  type : CardType
  cost : Int := 0
  description : String := ""
  tags : List Tag := []
  requirements : List Requirement := []
  behaviors : List Behavior := []
  victoryPoints : List VictoryPoints := []
  storage : Option TokenPool := none
deriving DecidableEq, Repr, Inhabited

namespace Card

def hasTag (c : Card) (tag : Tag) : Bool := c.tags.contains tag

def tagCount (c : Card) (tag : Tag) : Nat := c.tags.count tag

def isCorporation (c : Card) : Bool := c.type == .corporation

/-- The behaviors of one shape, in order. -/
def shaped (c : Card) (shape : Shape) : List Behavior := c.behaviors.filter (·.shape == shape)

def hasChoices (c : Card) : Bool := c.behaviors.any (!·.choices.isEmpty)

end Card

end MarsRules
