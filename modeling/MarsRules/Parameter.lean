import MarsRules.Event
import MarsRules.Rules

/-! Steps of a global parameter. The move saturates at 32 bits and is then cut to the range. -/

namespace MarsRules

structure ParameterChange where
  parameter : GlobalParameter
  before : Int
  after : Int
deriving DecidableEq, Repr, Inhabited

namespace ParameterChange

/-- The change that `steps` steps make; none if the range is the wrong way round. -/
def of? (rules : Rules) (p : GlobalParameter) (current steps : Int) : Option ParameterChange :=
  let range := rules.range p
  let moved := saturateInt32 (current + saturateInt32 (steps * range.step))
  (range.clamp? moved).map fun after => { parameter := p, before := current, after }

def isChange (c : ParameterChange) : Bool := c.before != c.after

/-- Whole steps gained, none for a decrease. -/
def stepsGained (c : ParameterChange) (rules : Rules) : Int :=
  max 0 ((wrapInt32 (c.after - c.before)).tdiv (max 1 (rules.range c.parameter).step))

def event (c : ParameterChange) (game : GameId) : Event :=
  .parameterChanged c.parameter { game, before := c.before, after := c.after }

end ParameterChange

end MarsRules
