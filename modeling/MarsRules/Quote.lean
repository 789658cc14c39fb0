import MarsRules.Quote.Blank
import MarsRules.Quote.Mark
import MarsRules.Quote.Unassigned

/-! Text in double quotes, as messages show it. -/

namespace MarsRules

namespace Quote

/-- Whether the character would not show by itself, or would show on its neighbour. -/
def isHidden (c : Char) : Bool :=
  [blanks, marks, unassigned].any fun spans => spans.any (·.contains c.toNat)

def hex (n : Nat) : String := String.ofList (Nat.toDigits 16 n)

def escape (c : Char) : String :=
  match c with
  | '"' => "\\\""
  | '\\' => "\\\\"
  | '\n' => "\\n"
  | '\r' => "\\r"
  | '\t' => "\\t"
  | '\x00' => "\\0"
  | c => if isHidden c then "\\u\x7b" ++ hex c.toNat ++ "\x7d" else c.toString

end Quote

def quoted (s : String) : String := "\"" ++ String.join (s.toList.map Quote.escape) ++ "\""

end MarsRules
