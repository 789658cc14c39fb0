/-! Runs of code points, for sets too large to list. -/

namespace MarsRules

namespace Quote

/-- The code points from `first` to `last`. -/
structure Span where
  first : Nat
  last : Nat

namespace Span

def contains (s : Span) (n : Nat) : Bool := s.first ≤ n && n ≤ s.last

end Span

end Quote

end MarsRules
