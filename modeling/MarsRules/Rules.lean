import MarsRules.Json.Text
import MarsRules.PathFault
import MarsRules.Refusal
import MarsRules.Resource.Set

/-! The numbers a variant of the rules may set; the defaults are the reference rules. -/

namespace MarsRules

/-- How far a global parameter can go, and how far one step takes it. -/
structure ParameterRange where
  min : Int
  max : Int
  step : Int
deriving DecidableEq, Repr, Inhabited

namespace ParameterRange

/-- The nearest value in the range; a range whose ends are the wrong way round has none. -/
def clamp? (r : ParameterRange) (n : Int) : Option Int :=
  if r.min ≤ r.max then some (Max.max r.min (Min.min r.max n)) else none

def toJson (r : ParameterRange) : Json :=
  .record [.always "min" (.int r.min), .always "max" (.int r.max), .always "step" (.int r.step)]

def ofJson? (j : Json) : Option ParameterRange := do
  let f ← Json.Fields.of? ["min", "max", "step"] j
  return {
    min := ← f.required "min" Json.asInt32?
    max := ← f.required "max" Json.asInt32?
    step := ← f.required "step" Json.asInt32? }

end ParameterRange

structure Rules where
  temperature : ParameterRange := { min := -30, max := 8, step := 2 }
  oxygen : ParameterRange := { min := 0, max := 14, step := 1 }
  oceans : ParameterRange := { min := 0, max := 9, step := 1 }
  steelValue : Int := 2
  titaniumValue : Int := 3
  minCreditsProduction : Int := -5
  minOtherProduction : Int := 0
  /-- Whether each step of a global parameter is worth a point of rating. -/
  ratingPerStep : Bool := true
deriving DecidableEq, Repr, Inhabited

namespace Rules

def range (r : Rules) : GlobalParameter → ParameterRange
  | .temperature => r.temperature
  | .oxygen => r.oxygen
  | .oceans => r.oceans

/-- As low as a production may be brought. -/
def productionFloor (r : Rules) : BaseResource → Int
  | .credits => r.minCreditsProduction
  | _ => r.minOtherProduction

def fieldNames : List String :=
  ["temperature", "oxygen", "oceans", "steelValue", "titaniumValue", "minCreditsProduction",
    "minOtherProduction", "terraformRatingPerStep"]

def toJson (r : Rules) : Json :=
  .record [
    .always "temperature" r.temperature.toJson,
    .always "oxygen" r.oxygen.toJson,
    .always "oceans" r.oceans.toJson,
    .always "steelValue" (.int r.steelValue),
    .always "titaniumValue" (.int r.titaniumValue),
    .always "minCreditsProduction" (.int r.minCreditsProduction),
    .always "minOtherProduction" (.int r.minOtherProduction),
    .always "terraformRatingPerStep" (.bool r.ratingPerStep)]

/-- What is left out is as in the reference rules. -/
def ofJson? (j : Json) : Option Rules := do
  let f ← Json.Fields.of? fieldNames j
  let reference : Rules := {}
  return {
    temperature := ← f.defaulted "temperature" reference.temperature ParameterRange.ofJson?
    oxygen := ← f.defaulted "oxygen" reference.oxygen ParameterRange.ofJson?
    oceans := ← f.defaulted "oceans" reference.oceans ParameterRange.ofJson?
    steelValue := ← f.defaulted "steelValue" reference.steelValue Json.asInt32?
    titaniumValue := ← f.defaulted "titaniumValue" reference.titaniumValue Json.asInt32?
    minCreditsProduction :=
      ← f.defaulted "minCreditsProduction" reference.minCreditsProduction Json.asInt32?
    minOtherProduction :=
      ← f.defaulted "minOtherProduction" reference.minOtherProduction Json.asInt32?
    ratingPerStep := ← f.defaulted "terraformRatingPerStep" reference.ratingPerStep Json.asBool? }

/-- Reads the rules from JSON text. -/
def ofText (text : String) : Except Refusal Rules :=
  match Json.parse? text >>= ofJson? with
  | some r => .ok r
  | none => .error (.malformed "not a set of rules")

/-- Reads the rules that a file holds, if the file is there. -/
def load (path : String) : (contents : Option String) → Except Refusal Rules
  | some text => ofText text
  | none => .error (.storeFailure (PathFault.ofPath path).message)

end Rules

end MarsRules
