import CallPlan.Plan.Planner
import CallPlan.Table
/-!
# Last readers

Before slots are given out, one pass over the commands notes for every literal and every result that is read the last command
that reads it.  Literals come in the order in which they are first met, which is also the order of their slots.
-/
namespace CallPlan

/-- The last command that reads each literal, and each command's result. -/
structure Lifetimes where
  literals : List (Bytes × Nat) := []
  results : List (Nat × Nat) := []
deriving DecidableEq

namespace Lifetimes

/-- Notes one argument of the command at `i`.  A result must come from an earlier command of the same planner. -/
def noteArg (planner i : Nat) (l : Lifetimes) : Value → Except PlanError Lifetimes
  | .literal _ bs => .ok { l with literals := Table.insert bs i l.literals }
  | .state        => .ok l
  | .result h     =>
    if h.command.planner ≠ planner then .error .foreignReturn
    else if i ≤ h.command.index then .error (.danglingReference i h.command.index)
    else .ok { l with results := Table.insert h.command.index i l.results }

def noteArgs (planner i : Nat) (l : Lifetimes) : List Value → Except PlanError Lifetimes
  | []      => .ok l
  | v :: vs =>
    match noteArg planner i l v with
    | .ok l'   => noteArgs planner i l' vs
    | .error e => .error e

/-- Notes the commands from position `i` on. -/
def noteCommands (planner i : Nat) (l : Lifetimes) : List Command → Except PlanError Lifetimes
  | []      => .ok l
  | c :: cs =>
    match noteArgs planner i l c.call.args with
    | .ok l'   => noteCommands planner (i + 1) l' cs
    | .error e => .error e

/-- The last readers of everything that a planner's commands read. -/
def analyze (planner : Nat) (cs : List Command) : Except PlanError Lifetimes := noteCommands planner 0 {} cs

end Lifetimes
end CallPlan
