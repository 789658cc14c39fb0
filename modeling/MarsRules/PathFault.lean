/-! Why a path names no file to read. A path is looked up part by part from the left; only the root,
the directory itself and its parent are sure to be there. -/

namespace MarsRules

inductive PathFault where
  | nullCharacter
  | tooLong
  | directory
  | missing
deriving DecidableEq, Repr, Inhabited

namespace PathFault

def message : PathFault → String
  | nullCharacter => "file name contained an unexpected NUL byte"
  | tooLong => "File name too long (os error 36)"
  | directory => "Is a directory (os error 21)"
  | missing => "No such file or directory (os error 2)"

/-- In bytes, as is `maxPart`. -/
def maxPath : Nat := 4095

def maxPart : Nat := 255

/-- The parts that may be missing. -/
def parts (path : String) : List String :=
  (path.splitOn "/").filter fun part => part ≠ "" ∧ part ≠ "." ∧ part ≠ ".."

/-- The fault of a path whose first part that may be missing is. -/
def ofPath (path : String) : PathFault :=
  if path.toList.contains '\x00' then nullCharacter
  else if maxPath < path.utf8ByteSize then tooLong
  else match parts path with
    | part :: _ => if maxPart < part.utf8ByteSize then tooLong else missing
    | [] => if path = "" then missing else directory

end PathFault

end MarsRules
