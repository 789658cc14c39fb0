import MarsRules.Json.Value

/-! JSON text, read strictly: nothing after the value, no comma before a closing bracket, no leading
zero, no raw control character in a string. The readers return the rest of the text. -/

namespace MarsRules.Json

namespace Text

def skipBlank : List Char → List Char
  | c :: rest => if c = ' ' ∨ c = '\t' ∨ c = '\n' ∨ c = '\r' then skipBlank rest else c :: rest
  | [] => []

def hexDigit? (c : Char) : Option Nat :=
  if '0' ≤ c ∧ c ≤ '9' then some (c.toNat - '0'.toNat)
  else if 'a' ≤ c ∧ c ≤ 'f' then some (c.toNat - 'a'.toNat + 10)
  else if 'A' ≤ c ∧ c ≤ 'F' then some (c.toNat - 'A'.toNat + 10)
  else none

def hexUnit? (a b c d : Char) : Option Nat := do
  return (((← hexDigit? a) * 16 + (← hexDigit? b)) * 16 + (← hexDigit? c)) * 16 + (← hexDigit? d)

def escaped? : Char → Option Char
  | '"' => some '"'
  | '\\' => some '\\'
  | '/' => some '/'
  | 'b' => some '\x08'
  | 'f' => some '\x0c'
  | 'n' => some '\n'
  | 'r' => some '\r'
  | 't' => some '\t'
  | _ => none

/-- A string on its way: its characters newest first, the first half of a surrogate pair that waits
for the second, and whether every half so far has found the other. -/
structure Draft where
  chars : List Char := []
  half : Option Nat := none
  paired : Bool := true

namespace Draft

def push (d : Draft) (c : Char) : Draft :=
  { chars := c :: d.chars, half := none, paired := d.paired && d.half.isNone }

/-- Takes in one escaped code unit. -/
def pushUnit (d : Draft) (unit : Nat) : Draft :=
  if 0xd800 ≤ unit ∧ unit < 0xdc00 then
    { d with half := some unit, paired := d.paired && d.half.isNone }
  else if 0xdc00 ≤ unit ∧ unit < 0xe000 then
    match d.half with
    | some high =>
      { d with
        chars := Char.ofNat (0x10000 + (high - 0xd800) * 0x400 + (unit - 0xdc00)) :: d.chars
        half := none }
    | none => { d with paired := false }
  else d.push (Char.ofNat unit)

/-- The finished string, unless half of a pair is left over. -/
def text? (d : Draft) : Option String :=
  if d.paired && d.half.isNone then some (String.ofList d.chars.reverse) else none

end Draft

/-- What follows an opening quote, up to the closing one. -/
def string? (d : Draft) : List Char → Option (Option String × List Char)
  | '"' :: rest => some (d.text?, rest)
  | '\\' :: 'u' :: a :: b :: c :: e :: rest => do string? (d.pushUnit (← hexUnit? a b c e)) rest
  | '\\' :: c :: rest => do string? (d.push (← escaped? c)) rest
  | c :: rest => if c.toNat < 0x20 then none else string? (d.push c) rest
  | [] => none

def digits (cs : List Char) : List Char × List Char := cs.span Char.isDigit

def natural (ds : List Char) : Nat := ds.foldl (fun n c => n * 10 + (c.toNat - '0'.toNat)) 0

/-- A point and the digits after it, if there is a point. -/
def fraction? : List Char → Option (List Char × List Char)
  | '.' :: rest => match digits rest with
    | ([], _) => none
    | (ds, rest) => some ('.' :: ds, rest)
  | rest => some ([], rest)

def exponent? : List Char → Option (List Char × List Char)
  | c :: rest =>
    if c = 'e' ∨ c = 'E' then
      let (sign, rest) := match rest with
        | '+' :: rest => (['+'], rest)
        | '-' :: rest => (['-'], rest)
        | rest => ([], rest)
      match digits rest with
      | ([], _) => none
      | (ds, rest) => some (c :: (sign ++ ds), rest)
    else some ([], c :: rest)
  | [] => some ([], [])

/-- A number without fraction or exponent is whole if 64 bits hold it; negative zero is not. -/
def whole? (negative : Bool) (n : Nat) : Option Int :=
  if negative then if 0 < n ∧ n ≤ 9223372036854775808 then some (-(n : Int)) else none
  else if n ≤ maxNat64 then some n else none

def number? (cs : List Char) : Option (Json × List Char) := do
  let (negative, cs) := match cs with
    | '-' :: rest => (true, rest)
    | rest => (false, rest)
  let (whole, rest) := digits cs
  guard (whole ≠ [] ∧ (whole.head? = some '0' → whole.length = 1))
  let (fraction, rest) ← fraction? rest
  let (exponent, rest) ← exponent? rest
  let written := String.ofList ((if negative then ['-'] else []) ++ whole ++ fraction ++ exponent)
  match fraction ++ exponent, whole? negative (natural whole) with
  | [], some n => return (.int n, rest)
  | _, _ => return (.real written, rest)

/-- The object with these fields, which no one can read if a key has no text. -/
def object (fields : List (Option String × Json)) : Json :=
  match fields.mapM fun (key, j) => key.map (·, j) with
  | some fields => .object fields
  | none => .unreadable

/-! The number is how many readers may still be entered; each enters one more character, so twice
the length of the text is plenty. -/
mutual

def value? : Nat → List Char → Option (Json × List Char)
  | 0, _ => none
  | n + 1, cs => match skipBlank cs with
    | '{' :: rest => match skipBlank rest with
      | '}' :: rest => some (.object [], rest)
      | rest => (fields? n rest).map fun (fields, rest) => (object fields, rest)
    | '[' :: rest => match skipBlank rest with
      | ']' :: rest => some (.array [], rest)
      | rest => (items? n rest).map fun (items, rest) => (.array items, rest)
    | '"' :: rest => (string? {} rest).map fun
      | (some s, rest) => (.string s, rest)
      | (none, rest) => (.unreadable, rest)
    | 'n' :: 'u' :: 'l' :: 'l' :: rest => some (.null, rest)
    | 't' :: 'r' :: 'u' :: 'e' :: rest => some (.bool true, rest)
    | 'f' :: 'a' :: 'l' :: 's' :: 'e' :: rest => some (.bool false, rest)
    | rest => number? rest

def items? : Nat → List Char → Option (List Json × List Char)
  | 0, _ => none
  | n + 1, cs => do
    let (item, rest) ← value? n cs
    match skipBlank rest with
    | ',' :: rest => (items? n rest).map fun (items, rest) => (item :: items, rest)
    | ']' :: rest => some ([item], rest)
    | _ => none

def fields? : Nat → List Char → Option (List (Option String × Json) × List Char)
  | 0, _ => none
  | n + 1, cs => match skipBlank cs with
    | '"' :: rest => do
      let (key, rest) ← string? {} rest
      match skipBlank rest with
      | ':' :: rest => do
        let (item, rest) ← value? n rest
        match skipBlank rest with
        | ',' :: rest => (fields? n rest).map fun (fields, rest) => ((key, item) :: fields, rest)
        | '}' :: rest => some ([(key, item)], rest)
        | _ => none
      | _ => none
    | _ => none

end

def hexChar (n : Nat) : Char := (Nat.digitChar (n % 16))

def escape (c : Char) : String :=
  if c = '"' then "\\\"" else if c = '\\' then "\\\\"
  else if c = '\n' then "\\n" else if c = '\r' then "\\r" else if c = '\t' then "\\t"
  else if c.toNat < 0x20 then
    String.ofList ['\\', 'u', '0', '0', hexChar (c.toNat / 16), hexChar c.toNat]
  else c.toString

def quote (s : String) : String := s.foldl (fun acc c => acc ++ escape c) "\"" ++ "\""

end Text

/-- The value that a whole text holds. -/
def parse? (text : String) : Option Json := do
  let cs := text.toList
  let (j, rest) ← Text.value? (2 * cs.length + 2) cs
  guard (Text.skipBlank rest = [])
  return j

/-! Printing appends to the text so far and leaves no blanks. -/
mutual

def printTo (acc : String) : Json → String
  | .null | .unreadable => acc ++ "null"
  | .bool b => acc ++ (if b then "true" else "false")
  | .int n => acc ++ toString n
  | .real written => acc ++ written
  | .string text => acc ++ Text.quote text
  | .array [] => acc ++ "[]"
  | .array (item :: items) => printItems (printTo (acc.push '[') item) items
  | .object [] => acc ++ "\x7b\x7d"
  | .object (field :: fields) => printFields (printField (acc.push '{') field) fields

def printItems (acc : String) : List Json → String
  | [] => acc.push ']'
  | item :: items => printItems (printTo (acc.push ',') item) items

def printField (acc : String) : String × Json → String
  | (key, j) => printTo ((acc ++ Text.quote key).push ':') j

def printFields (acc : String) : List (String × Json) → String
  | [] => acc.push '}'
  | field :: fields => printFields (printField (acc.push ',') field) fields

end

def print (j : Json) : String := printTo "" j

end MarsRules.Json
