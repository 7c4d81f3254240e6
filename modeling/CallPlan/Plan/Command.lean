import CallPlan.Abi.Address
import CallPlan.Abi.Function.Basic
import CallPlan.Plan.Value
/-!
# Calls and commands

A call is a function at an address with its arguments.  A command is a call in a plan, and says whether the call's output
replaces the whole table.
-/
namespace CallPlan

structure Call where
  address : Address
  function : Function
  args : List Value
deriving DecidableEq

structure Command where
  call : Call
  replacesState : Bool
deriving DecidableEq

namespace Call

def selector (c : Call) : Selector := c.function.selector

def signature (c : Call) : String := c.function.signature

/-- Whether the first declared output is kept in its slot as a blob. -/
def outputIsDynamic (c : Call) : Bool :=
  match c.function.outputs with
  | p :: _ => p.kind.isDynamic
  | []     => false

end Call
end CallPlan
