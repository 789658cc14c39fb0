/-! Arguments of the command line, taken one by one: the first that asks for help or cannot be
taken settles the matter. -/

namespace MarsRules

namespace CommandLine

inductive Topic where
  | program | catalog | check | help
deriving DecidableEq, Repr, Inhabited

inductive Command where
  | catalog (path : String)
  | check (path : String) (strict : Bool)
  | help (topic : Topic)
deriving DecidableEq, Repr, Inhabited

inductive Flag where
  | verbose | strict | help
deriving DecidableEq, Repr, Inhabited

/-- The options and the path taken so far. -/
structure Draft where
  verbose : Bool := false
  strict : Bool := false
  path : Option String := none
  /-- Nothing more is an option. -/
  ended : Bool := false
deriving DecidableEq, Repr, Inhabited

/-- Taking arguments stops early with help, or with nothing when they are misused. -/
abbrev Taking := Except (Option Command)

def misuse {α : Type} : Taking α := throw none

/-- A lone dash is a path. -/
def isOption (arg : String) : Bool := arg.startsWith "-" && arg != "-"

/-- The options that an argument is made of; those that do not exist are none. -/
def flags (arg : String) : List (Option Flag) :=
  if arg = "--verbose" then [some .verbose]
  else if arg = "--strict" then [some .strict]
  else if arg = "--help" then [some .help]
  else if arg.startsWith "--" then [none]
  else (arg.toList.drop 1).map fun
    | 'v' => some .verbose
    | 'h' => some .help
    | _ => none

namespace Draft

/-- Only one command knows strictness, and no option is taken twice. -/
def raise (topic : Topic) (d : Draft) : Option Flag → Taking Draft
  | some .help => throw (some (.help topic))
  | some .verbose => if d.verbose then misuse else .ok { d with verbose := true }
  | some .strict =>
    if topic = .check ∧ !d.strict then .ok { d with strict := true } else misuse
  | none => misuse

def take (topic : Topic) (d : Draft) (arg : String) : Taking Draft :=
  if !d.ended && arg == "--" then .ok { d with ended := true }
  else if !d.ended && isOption arg then (flags arg).foldlM (raise topic) d
  else if arg = "" ∨ d.path.isSome then misuse
  else .ok { d with path := some arg }

end Draft

def details (topic : Topic) (args : List String) : Taking (String × Bool) := do
  let d ← args.foldlM (Draft.take topic) {}
  match d.path with
  | some path => return (path, d.strict)
  | none => misuse

def topic? : List String → Option Topic
  | [] => some .program
  | ["catalog"] => some .catalog
  | ["check"] => some .check
  | ["help"] => some .help
  | _ => none

/-- The arguments up to the command take options too. -/
def command (d : Draft) : List String → Taking Command
  | [] => misuse
  | "catalog" :: rest => return .catalog (← details .catalog rest).1
  | "check" :: rest => do
    let (path, strict) ← details .check rest
    return .check path strict
  | "help" :: rest => match topic? rest with
    | some topic => return .help topic
    | none => misuse
  | arg :: rest => do
    if !isOption arg then misuse
    command (← (flags arg).foldlM (Draft.raise .program) d) rest

/-- The command that the arguments make up, unless they are misused. -/
def command? (args : List String) : Option Command :=
  match command {} args with
  | .ok c => some c
  | .error c => c

end CommandLine

end MarsRules
