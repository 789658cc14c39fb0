import MarsRules.Json.Value

/-! Readers of typed values. A record is an object, whose unknown keys are passed over, or a list of
its fields in their declared order, which may end early where the rest can be left out. -/

namespace MarsRules.Json

variable {α : Type}

def asBool? : Json → Option Bool
  | .bool b => some b
  | _ => none

def asText? : Json → Option String
  | .string s => some s
  | _ => none

def asInt32? : Json → Option Int
  | .int n => fitInt32? n
  | _ => none

def asNat? (bound : Nat) : Json → Option Nat
  | .int n => if 0 ≤ n ∧ n ≤ bound then some n.toNat else none
  | _ => none

def asList? (item : Json → Option α) : Json → Option (List α)
  | .array items => items.mapM item
  | _ => none

def asNullable? (item : Json → Option α) : Json → Option (Option α)
  | .null => some none
  | j => (item j).map some

/-- A word of a vocabulary, alone or as the only key of an object, over null. -/
def asTerm? (term : String → Option α) : Json → Option α
  | .string s => term s
  | .object [(s, .null)] => term s
  | _ => none

/-- A word of an open vocabulary. -/
def asWord? (term : String → α) (j : Json) : Option α := j.asText?.map term

/-- Of a repeated key the last row counts. -/
def asTable? (row : Json → Option α) : Json → Option (Table α)
  | .object fields => fields.foldlM (fun t (key, j) => (row j).map (Table.put t key)) []
  | _ => none

/-- The known fields that a record gives. -/
structure Fields where
  named : Bool
  given : List (String × Json)

namespace Fields

/-- A known key may not be repeated, and a list may not be longer than the record. -/
def of? (names : List String) : Json → Option Fields
  | .object fields =>
    let given := fields.filter fun field => names.contains field.1
    if (given.map (·.1)).Nodup then some ⟨true, given⟩ else none
  | .array items => if items.length ≤ names.length then some ⟨false, names.zip items⟩ else none
  | _ => none

def find? (f : Fields) (name : String) : Option Json := Table.get? f.given name

def required (f : Fields) (name : String) (item : Json → Option α) : Option α :=
  f.find? name >>= item

/-- A field that may be left out, and then is `missing`. -/
def defaulted (f : Fields) (name : String) (missing : α) (item : Json → Option α) : Option α :=
  match f.find? name with
  | some j => item j
  | none => some missing

def optional (f : Fields) (name : String) (item : Json → Option α) : Option (Option α) :=
  f.defaulted name none (asNullable? item)

/-- A field that may be null, and may be left out of an object but not of a list. -/
def nullable (f : Fields) (name : String) (item : Json → Option α) : Option (Option α) :=
  if f.named then f.optional name item else f.required name (asNullable? item)

def listed (f : Fields) (name : String) (item : Json → Option α) : Option (List α) :=
  f.defaulted name [] (asList? item)

end Fields

end MarsRules.Json
