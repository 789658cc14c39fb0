import MarsRules.Word

/-! What a line item of a card can be about. Every word means something here: one the rules do not
model is kept as it is, and `word_ofWord` says that no word is lost or merged with another. -/

namespace MarsRules

/-- The six resources in a player's pool. -/
inductive BaseResource where
  | credits | steel | titanium | plants | energy | heat
deriving DecidableEq, Repr, Inhabited

namespace BaseResource

def all : List BaseResource := [credits, steel, titanium, plants, energy, heat]

def word : BaseResource → String
  | credits => "credits"
  | steel => "steel"
  | titanium => "titanium"
  | plants => "plants"
  | energy => "energy"
  | heat => "heat"

def ofWord? (w : String) : Option BaseResource := termOf? word all w

theorem mem_all (r : BaseResource) : r ∈ all := by cases r <;> decide

end BaseResource

/-- Tokens that lie on cards. -/
inductive StorageResource where
  | animals | microbes | floaters | science | asteroid | disease
deriving DecidableEq, Repr, Inhabited

namespace StorageResource

def all : List StorageResource := [animals, microbes, floaters, science, asteroid, disease]

def word : StorageResource → String
  | animals => "animals"
  | microbes => "microbes"
  | floaters => "floaters"
  | science => "science"
  | asteroid => "asteroid"
  | disease => "disease"

def ofWord? (w : String) : Option StorageResource := termOf? word all w

end StorageResource

/-- The counters that all players share. -/
inductive GlobalParameter where
  | temperature | oxygen | oceans
deriving DecidableEq, Repr, Inhabited

namespace GlobalParameter

def all : List GlobalParameter := [temperature, oxygen, oceans]

def word : GlobalParameter → String
  | temperature => "temperature"
  | oxygen => "oxygen"
  | oceans => "oceans"

def ofWord? (w : String) : Option GlobalParameter := termOf? word all w

end GlobalParameter

inductive TileKind where
  | city | ocean | greenery
deriving DecidableEq, Repr, Inhabited

namespace TileKind

def all : List TileKind := [city, ocean, greenery]

def word : TileKind → String
  | city => "city"
  | ocean => "ocean"
  | greenery => "greenery"

def ofWord? (w : String) : Option TileKind := termOf? word all w

/-- Reads the name of a tile with or without "-tile" after it. -/
def ofName? (name : String) : Option TileKind :=
  ofWord? name <|> termOf? (fun t => t.word ++ "-tile") all name

end TileKind

/-- The kind of a line item. -/
inductive ResourceKind where
  | resource (r : BaseResource)
  | production (r : BaseResource)
  | terraformRating
  /-- A tile to be placed. -/
  | tilePlacement (t : TileKind)
  /-- A tile on the board, as something to count. -/
  | tile (t : TileKind)
  | cardStorage (s : StorageResource)
  | globalParameter (p : GlobalParameter)
  | discount
  | parameterLenience
  | valueModifier
  | defense
  | paymentSubstitute
  | cardDraw
  | cardTake
  | cardPeek
  | unknown (word : String)
deriving DecidableEq, Repr, Inhabited

namespace ResourceKind

/-- The kinds that have words of their own, in their order. -/
def known : List ResourceKind :=
  BaseResource.all.map resource ++ BaseResource.all.map production ++ [terraformRating] ++
    TileKind.all.map tilePlacement ++ TileKind.all.map tile ++
    StorageResource.all.map cardStorage ++ GlobalParameter.all.map globalParameter ++
    [discount, parameterLenience, valueModifier, defense, paymentSubstitute, cardDraw, cardTake,
      cardPeek]

def word : ResourceKind → String
  | resource r => r.word
  | production r => r.word ++ "-production"
  | terraformRating => "tr"
  | tilePlacement t => t.word ++ "-placement"
  | tile t => t.word ++ "-tile"
  | cardStorage s => s.word
  | globalParameter p => p.word
  | discount => "discount"
  | parameterLenience => "global-parameter-lenience"
  | valueModifier => "value-modifier"
  | defense => "defense"
  | paymentSubstitute => "payment-substitute"
  | cardDraw => "card-draw"
  | cardTake => "card-take"
  | cardPeek => "card-peek"
  | unknown w => w

/-- The kinds that are not named for a resource in the pool, its production or tokens. -/
def ofOwnWord : String → ResourceKind
  | "tr" => terraformRating
  | "city-placement" => tilePlacement .city
  | "ocean-placement" => tilePlacement .ocean
  | "greenery-placement" => tilePlacement .greenery
  | "city-tile" => tile .city
  | "ocean-tile" => tile .ocean
  | "greenery-tile" => tile .greenery
  | "temperature" => globalParameter .temperature
  | "oxygen" => globalParameter .oxygen
  | "oceans" => globalParameter .oceans
  | "discount" => discount
  | "global-parameter-lenience" => parameterLenience
  | "value-modifier" => valueModifier
  | "defense" => defense
  | "payment-substitute" => paymentSubstitute
  | "card-draw" => cardDraw
  | "card-take" => cardTake
  | "card-peek" => cardPeek
  | w => unknown w

def ofWord (w : String) : ResourceKind :=
  match BaseResource.ofWord? w with
  | some r => resource r
  | none => match (stem? "-production" w).bind BaseResource.ofWord? with
    | some r => production r
    | none => match StorageResource.ofWord? w with
      | some s => cardStorage s
      | none => ofOwnWord w

theorem word_ofOwnWord (w : String) : (ofOwnWord w).word = w := by
  unfold ofOwnWord
  split <;> rfl

theorem word_ofWord (w : String) : (ofWord w).word = w := by
  unfold ofWord
  split
  · next r h =>
    show r.word = w
    exact write_termOf? h
  · split
    · next r h =>
      obtain ⟨stem, hstem, hr⟩ := Option.bind_eq_some_iff.mp h
      have hword : r.word = stem := write_termOf? hr
      show r.word ++ "-production" = w
      rw [hword, append_of_stem? hstem]
    · split
      · next s h =>
        show s.word = w
        exact write_termOf? h
      · exact word_ofOwnWord w

/-- A standing modifier, which is looked up and never applied. -/
def isModifier : ResourceKind → Bool
  | discount | parameterLenience | valueModifier | defense | paymentSubstitute => true
  | _ => false

def isUnknown : ResourceKind → Bool
  | unknown _ => true
  | _ => false

/-- Known kinds come in their order, then the unknown ones by their words. -/
def precedes : ResourceKind → ResourceKind → Bool
  | unknown v, unknown w => v < w
  | unknown _, _ => false
  | _, unknown _ => true
  | a, b => known.idxOf a < known.idxOf b

end ResourceKind

end MarsRules
