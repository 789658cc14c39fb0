import MarsRules.Card.Basic
import MarsRules.Json.Reader

/-! Cards as JSON. What a card leaves out is written only where it says something; a card's own
lists are always written. -/

namespace MarsRules

def CardType.toJson (t : CardType) : Json := .string t.word
def CardType.ofJson? : Json → Option CardType := Json.asTerm? ofWord?

def Location.toJson (l : Location) : Json := .string l.word
def Location.ofJson? : Json → Option Location := Json.asTerm? fun w => some (ofWord w)

def Target.toJson (t : Target) : Json := .string t.word
def Target.ofJson? : Json → Option Target := Json.asTerm? ofWord?

def TriggerType.toJson (t : TriggerType) : Json := .string t.word
def TriggerType.ofJson? : Json → Option TriggerType := Json.asTerm? ofWord?

def ResourceKind.toJson (k : ResourceKind) : Json := .string k.word
def ResourceKind.ofJson? : Json → Option ResourceKind := Json.asWord? ofWord

def Tag.toJson (t : Tag) : Json := .string t.word
def Tag.ofJson? : Json → Option Tag := Json.asWord? ofWord

namespace Condition

def toJson (c : Condition) : Json :=
  .record [
    .always "type" (.string c.kind.word),
    .ifSome "location" Location.toJson c.location,
    .ifAny "affectedTags" Tag.toJson c.tags,
    .ifAny "affectedResources" ResourceKind.toJson c.resources]

def ofJson? (j : Json) : Option Condition := do
  let f ← Json.Fields.of? ["type", "location", "affectedTags", "affectedResources"] j
  return {
    kind := ← f.required "type" (Json.asWord? ConditionKind.ofWord)
    location := ← f.optional "location" Location.ofJson?
    tags := ← f.listed "affectedTags" Tag.ofJson?
    resources := ← f.listed "affectedResources" ResourceKind.ofJson? }

end Condition

namespace Trigger

def toJson (t : Trigger) : Json :=
  .record [
    .always "type" t.type.toJson,
    .ifSome "condition" Condition.toJson t.condition]

def ofJson? (j : Json) : Option Trigger := do
  let f ← Json.Fields.of? ["type", "condition"] j
  return {
    type := ← f.required "type" TriggerType.ofJson?
    condition := ← f.optional "condition" Condition.ofJson? }

end Trigger

namespace Scaling

def toJson (s : Scaling) : Json :=
  .record [
    .always "type" s.kind.toJson,
    .always "amount" (.int s.amount),
    .ifSome "location" Location.toJson s.location,
    .ifSome "target" Target.toJson s.target,
    .ifSome "tag" Tag.toJson s.tag]

def ofJson? (j : Json) : Option Scaling := do
  let f ← Json.Fields.of? ["type", "amount", "location", "target", "tag"] j
  return {
    kind := ← f.required "type" ResourceKind.ofJson?
    amount := ← f.required "amount" Json.asInt32?
    location := ← f.optional "location" Location.ofJson?
    target := ← f.optional "target" Target.ofJson?
    tag := ← f.optional "tag" Tag.ofJson? }

end Scaling

namespace LineItem

def toJson (i : LineItem) : Json :=
  .record [
    .always "type" i.kind.toJson,
    .always "amount" (.int i.amount),
    .ifSome "target" Target.toJson i.target,
    .ifAny "affectedTags" Tag.toJson i.tags,
    .ifAny "affectedResources" ResourceKind.toJson i.resources,
    .ifSome "per" Scaling.toJson i.per]

def ofJson? (j : Json) : Option LineItem := do
  let f ← Json.Fields.of?
    ["type", "amount", "target", "affectedTags", "affectedResources", "per"] j
  return {
    kind := ← f.required "type" ResourceKind.ofJson?
    amount := ← f.required "amount" Json.asInt32?
    target := ← f.optional "target" Target.ofJson?
    tags := ← f.listed "affectedTags" Tag.ofJson?
    resources := ← f.listed "affectedResources" ResourceKind.ofJson?
    per := ← f.optional "per" Scaling.ofJson? }

end LineItem

namespace Choice

def toJson (c : Choice) : Json :=
  .record [
    .ifAny "inputs" LineItem.toJson c.inputs,
    .ifAny "outputs" LineItem.toJson c.outputs]

def ofJson? (j : Json) : Option Choice := do
  let f ← Json.Fields.of? ["inputs", "outputs"] j
  return {
    inputs := ← f.listed "inputs" LineItem.ofJson?
    outputs := ← f.listed "outputs" LineItem.ofJson? }

end Choice

namespace Behavior

def toJson (b : Behavior) : Json :=
  .record [
    .ifAny "triggers" Trigger.toJson b.triggers,
    .ifAny "inputs" LineItem.toJson b.inputs,
    .ifAny "outputs" LineItem.toJson b.outputs,
    .ifAny "choices" Choice.toJson b.choices]

def ofJson? (j : Json) : Option Behavior := do
  let f ← Json.Fields.of? ["triggers", "inputs", "outputs", "choices"] j
  return {
    triggers := ← f.listed "triggers" Trigger.ofJson?
    inputs := ← f.listed "inputs" LineItem.ofJson?
    outputs := ← f.listed "outputs" LineItem.ofJson?
    choices := ← f.listed "choices" Choice.ofJson? }

end Behavior

namespace Requirement

def toJson (r : Requirement) : Json :=
  .record [
    .always "type" (.string r.kind.word),
    .ifSome "min" .int r.min,
    .ifSome "max" .int r.max,
    .ifSome "location" Location.toJson r.location,
    .ifSome "tag" Tag.toJson r.tag,
    .ifSome "resource" ResourceKind.toJson r.resource]

def ofJson? (j : Json) : Option Requirement := do
  let f ← Json.Fields.of? ["type", "min", "max", "location", "tag", "resource"] j
  return {
    kind := ← f.required "type" (Json.asWord? RequirementKind.ofWord)
    min := ← f.optional "min" Json.asInt32?
    max := ← f.optional "max" Json.asInt32?
    location := ← f.optional "location" Location.ofJson?
    tag := ← f.optional "tag" Tag.ofJson?
    resource := ← f.optional "resource" ResourceKind.ofJson? }

end Requirement

namespace VictoryPoints

def toJson (v : VictoryPoints) : Json :=
  .record [
    .always "amount" (.int v.amount),
    .always "condition" (.string v.kind.word),
    .ifSome "maxTrigger" .int v.maxTrigger,
    .ifSome "per" Scaling.toJson v.per]

def ofJson? (j : Json) : Option VictoryPoints := do
  let f ← Json.Fields.of? ["amount", "condition", "maxTrigger", "per"] j
  return {
    amount := ← f.required "amount" Json.asInt32?
    kind := ← f.required "condition" (Json.asWord? VictoryKind.ofWord)
    maxTrigger := ← f.optional "maxTrigger" Json.asInt32?
    per := ← f.optional "per" Scaling.ofJson? }

end VictoryPoints

namespace TokenPool

def toJson (p : TokenPool) : Json :=
  .record [
    .always "type" p.kind.toJson,
    .ifSome "capacity" .int p.capacity,
    .always "starting" (.int p.starting)]

def ofJson? (j : Json) : Option TokenPool := do
  let f ← Json.Fields.of? ["type", "capacity", "starting"] j
  return {
    kind := ← f.required "type" ResourceKind.ofJson?
    capacity := ← f.optional "capacity" Json.asInt32?
    starting := ← f.defaulted "starting" 0 Json.asInt32? }

end TokenPool

namespace Card

def fieldNames : List String :=
  ["id", "name", "type", "cost", "description", "tags", "requirements", "behaviors",
    "vpConditions", "resourceStorage"]

def toJson (c : Card) : Json :=
  .record [
    .always "id" (.string c.id),
    .always "name" (.string c.name),
    .always "type" c.type.toJson,
    .always "cost" (.int c.cost),
    .always "description" (.string c.description),
    .always "tags" (.ofList Tag.toJson c.tags),
    .always "requirements" (.ofList Requirement.toJson c.requirements),
    .always "behaviors" (.ofList Behavior.toJson c.behaviors),
    .always "vpConditions" (.ofList VictoryPoints.toJson c.victoryPoints),
    .ifSome "resourceStorage" TokenPool.toJson c.storage]

def ofJson? (j : Json) : Option Card := do
  let f ← Json.Fields.of? fieldNames j
  return {
    id := ← f.required "id" Json.asText?
    name := ← f.required "name" Json.asText?
    type := ← f.required "type" CardType.ofJson?
    cost := ← f.defaulted "cost" 0 Json.asInt32?
    description := ← f.defaulted "description" "" Json.asText?
    tags := ← f.listed "tags" Tag.ofJson?
    requirements := ← f.listed "requirements" Requirement.ofJson?
    behaviors := ← f.listed "behaviors" Behavior.ofJson?
    victoryPoints := ← f.listed "vpConditions" VictoryPoints.ofJson?
    storage := ← f.optional "resourceStorage" TokenPool.ofJson? }

end Card

end MarsRules
