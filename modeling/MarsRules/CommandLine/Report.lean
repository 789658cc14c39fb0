import MarsRules.Card.Unknown
import MarsRules.Catalog
import MarsRules.CommandLine.Arguments

/-! What the commands print: a summary of a catalog, and the words of its cards that the rules pass
over. -/

namespace MarsRules

/-- What a run comes to. -/
structure Outcome where
  exit : Nat
  lines : List String := []
  /-- What went wrong. -/
  failure : Option String := none
deriving DecidableEq, Repr, Inhabited

namespace CommandLine

def alignLeft (width : Nat) (s : String) : String :=
  s ++ String.ofList (List.replicate (width - s.length) ' ')

def alignRight (width : Nat) (s : String) : String :=
  String.ofList (List.replicate (width - s.length) ' ') ++ s

/-- A name and how often it occurs. -/
def countLine (width : Nat) (name : String) (count : Nat) : String :=
  s!"  {alignLeft width name} {alignRight 5 (toString count)}"

/-- One line a name, in alphabetical order. -/
def tally (width : Nat) (names : List String) : List String :=
  (names.mergeSort fun a b => a ≤ b).eraseDups.map fun name =>
    countLine width name (names.count name)

end CommandLine

def Shape.title : Shape → String
  | .immediate => "immediate"
  | .manual => "manual action"
  | .passive => "passive effect"
  | .firstAction => "forced first action"
  | .inert => "inert"

namespace Catalog

open CommandLine

def summary (path : String) (cat : Catalog) : List String :=
  let behaviors := cat.cards.flatMap (·.behaviors)
  let standing := behaviors.countP fun b => b.shape == .immediate && !b.modifiers.isEmpty
  let choosing := cat.cards.countP (·.hasChoices)
  let storing := cat.cards.countP (·.storage.isSome)
  let forced := cat.cards.countP fun c => !(c.shaped .firstAction).isEmpty
  [s!"{path}: {cat.cards.length} cards", "", "Card types:"] ++
  tally 14 (cat.cards.map (·.type.word)) ++
  ["", "Behaviors:"] ++
  tally 20 (behaviors.map (·.shape.title)) ++
  [countLine 20 "(static modifiers)" standing, "",
    s!"Cards with choices:  {choosing}",
    s!"Cards with storage:  {storing}",
    s!"Corporations:        {cat.corporations.length} ({forced} with a forced first action)"]

/-- The cards with words the rules do not know. -/
def flagged (cat : Catalog) : List Card := cat.cards.filter fun c => !c.unknownWords.isEmpty

def flaggedText (cat : Catalog) : String := s!"{cat.flagged.length} cards use unknown vocabulary"

def vocabulary (path : String) (cat : Catalog) : List String :=
  if cat.flagged.isEmpty then [s!"{path}: all {cat.cards.length} cards use known vocabulary"]
  else
    cat.flagged.map (fun c => s!"{c.id} ({c.name}): " ++ ", ".intercalate c.unknownWords) ++
    ["", s!"{cat.flagged.length} of {cat.cards.length} cards use unknown vocabulary"] ++
    tally 32 (cat.flagged.flatMap (·.unknownWords))

end Catalog

namespace CommandLine

def optionLines : List String :=
  ["  -v, --verbose  Enable debug logging (RUST_LOG takes precedence)",
    "  -h, --help     Print help"]

def argumentLines : List String := ["Arguments:", "  <CATALOG>  JSON card catalog"]

def helpLines : Topic → List String
  | .program =>
    ["Terraform Engine - card catalog tooling", "",
      "Usage: tfm [OPTIONS] <COMMAND>", "",
      "Commands:",
      "  catalog  Summarize a catalog: card types and behavior shapes",
      "  check    Report catalog vocabulary the engine skips (fail-open kinds)",
      "  help     Print this message or the help of the given subcommand(s)", "",
      "Options:"] ++ optionLines
  | .catalog =>
    ["Summarize a catalog: card types and behavior shapes", "",
      "Usage: tfm catalog [OPTIONS] <CATALOG>", ""] ++ argumentLines ++
    ["", "Options:"] ++ optionLines
  | .check =>
    ["Report catalog vocabulary the engine skips (fail-open kinds)", "",
      "Usage: tfm check [OPTIONS] <CATALOG>", ""] ++ argumentLines ++
    ["", "Options:",
      "      --strict   Exit with an error if any card uses unknown vocabulary"] ++ optionLines
  | .help =>
    ["Print this message or the help of the given subcommand(s)", "",
      "Usage: tfm help [COMMAND]...", "",
      "Arguments:",
      "  [COMMAND]...  Print help for the subcommand(s)"]

/-- The catalog at a path, if the file is there and holds one. -/
def readCatalog (path : String) (file : Option String) : Except String Catalog :=
  match file with
  | none => .error s!"reading catalog {path}"
  | some text => match Catalog.ofText text with
    | .ok cat => .ok cat
    | .error _ => .error s!"parsing catalog {path}"

namespace Command

/-- The file the command reads. -/
def path? : Command → Option String
  | catalog path | check path _ => some path
  | help _ => none

/-- Runs the command; `file` is what its file holds, if it can be read. -/
def run (file : Option String) : Command → Outcome
  | help topic => { exit := 0, lines := helpLines topic }
  | catalog path => match readCatalog path file with
    | .ok cat => { exit := 0, lines := cat.summary path }
    | .error failure => { exit := 1, failure }
  | check path strict => match readCatalog path file with
    | .ok cat =>
      let lines := cat.vocabulary path
      if strict ∧ !cat.flagged.isEmpty then { exit := 1, lines, failure := cat.flaggedText }
      else { exit := 0, lines }
    | .error failure => { exit := 1, failure }

end Command

/-- Runs the program on its arguments; `read` gives what the file at a path holds. -/
def run (read : String → Option String) (args : List String) : Outcome :=
  match command? args with
  | some c => c.run (c.path?.bind read)
  | none => { exit := 2 }

end CommandLine

end MarsRules
