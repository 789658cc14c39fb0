import MarsRules.Word

/-! Tags printed on cards; a tag the rules do not know is kept word for word. -/

namespace MarsRules

inductive Tag where
  | space | earth | science | power | building | microbe | animal | plant | event | city | venus
  | jovian | wildlife | wild
  | unknown (word : String)
deriving DecidableEq, Repr, Inhabited

namespace Tag

def known : List Tag :=
  [space, earth, science, power, building, microbe, animal, plant, event, city, venus, jovian,
    wildlife, wild]

def word : Tag → String
  | space => "space"
  | earth => "earth"
  | science => "science"
  | power => "power"
  | building => "building"
  | microbe => "microbe"
  | animal => "animal"
  | plant => "plant"
  | event => "event"
  | city => "city"
  | venus => "venus"
  | jovian => "jovian"
  | wildlife => "wildlife"
  | wild => "wild"
  | unknown w => w

def ofWord : String → Tag
  | "space" => space
  | "earth" => earth
  | "science" => science
  | "power" => power
  | "building" => building
  | "microbe" => microbe
  | "animal" => animal
  | "plant" => plant
  | "event" => event
  | "city" => city
  | "venus" => venus
  | "jovian" => jovian
  | "wildlife" => wildlife
  | "wild" => wild
  | w => unknown w

theorem word_ofWord (w : String) : (ofWord w).word = w := by
  unfold ofWord
  split <;> rfl

def isUnknown : Tag → Bool
  | unknown _ => true
  | _ => false

end Tag

end MarsRules
