import MarsRules.Integer
import MarsRules.Table

/-! JSON values as the program tells them apart: whole numbers are numbers, any other number is kept
as it was written, and a value whose text no string can hold is `unreadable`. -/

namespace MarsRules

inductive Json where
  | null
  | bool (b : Bool)
  | int (n : Int)
  /-- A number with a fraction or an exponent, negative zero, or one beyond 64 bits. -/
  | real (written : String)
  | string (text : String)
  /-- A string, or an object with a key, that names half of a surrogate pair. -/
  | unreadable
  | array (items : List Json)
  | object (fields : List (String × Json))
deriving Inhabited

namespace Json

/-- The value under `key`, the last one if the key is repeated. -/
def field? (j : Json) (key : String) : Option Json :=
  match j with
  | .object fields => Table.get? fields.reverse key
  | _ => none

/-- The value under `key`, null where there is none. -/
def get (j : Json) (key : String) : Json := (j.field? key).getD .null

def ofList {α : Type} (write : α → Json) (items : List α) : Json := .array (items.map write)

def ofOption {α : Type} (write : α → Json) (item : Option α) : Json := (item.map write).getD .null

def ofNat (n : Nat) : Json := .int n

/-! A record is written field by field; a field that says nothing may be left out. -/

abbrev Entry := Option (String × Json)

namespace Entry

def always (name : String) (j : Json) : Entry := some (name, j)

def ifSome {α : Type} (name : String) (write : α → Json) (item : Option α) : Entry :=
  item.map fun a => (name, write a)

def ifAny {α : Type} (name : String) (write : α → Json) : List α → Entry
  | [] => none
  | items => some (name, ofList write items)

end Entry

def record (entries : List Entry) : Json := .object (entries.filterMap id)

end Json

end MarsRules
