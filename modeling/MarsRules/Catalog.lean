import MarsRules.Card.Json
import MarsRules.Json.Text
import MarsRules.PathFault
import MarsRules.Quote
import MarsRules.Refusal

/-! The cards of the game. No two have one id: a card added under the id of another takes its
place. -/

namespace MarsRules

structure Catalog where
  cards : List Card := []
deriving DecidableEq, Repr, Inhabited

namespace Catalog

def addTo (cards : List Card) (c : Card) : List Card :=
  match cards with
  | [] => [c]
  | d :: rest => if d.id = c.id then c :: rest else d :: addTo rest c

def add (cat : Catalog) (c : Card) : Catalog := ⟨addTo cat.cards c⟩

def ofList (cards : List Card) : Catalog := cards.foldl add {}

def find? (cat : Catalog) (id : CardId) : Option Card := cat.cards.find? (·.id == id)

def find (cat : Catalog) (id : CardId) : Except Refusal Card :=
  match cat.find? id with
  | some c => .ok c
  | none => .error (.cardNotFound id)

/-- The cards of the project deck. -/
def pool (cat : Catalog) : List Card :=
  cat.cards.filter fun c => c.type ≠ .corporation ∧ c.type ≠ .prelude

def corporations (cat : Catalog) : List Card := cat.cards.filter (·.type == .corporation)

/-- Reads a list of cards from JSON text. -/
def ofText (text : String) : Except Refusal Catalog :=
  match Json.parse? text >>= Json.asList? Card.ofJson? with
  | some cards => .ok (ofList cards)
  | none => .error (.malformed "not a list of cards")

/-- Reads the catalog that a file holds, if the file is there; a directory is there but no file. -/
def load (path : String) : (contents : Option String) → Except Refusal Catalog
  | some text => ofText text
  | none => match PathFault.ofPath path with
    | .directory => .error (.storeFailure PathFault.directory.message)
    | _ => .error (.storeFailure s!"Card catalog not found: {quoted path}")

end Catalog

end MarsRules
