import CallPlan.Plan.Command
import CallPlan.Plan.Error
/-!
# Planners

A planner has an identity and a list of commands that only grows.  Appending gives an answer and the planner afterwards, also
when it fails.  A result can be used as an argument in the planner that gave it out and in no other; the identity is what tells
them apart.
-/
namespace CallPlan

structure Planner where
  id : Nat
  commands : List Command
deriving DecidableEq

namespace Planner

def empty (id : Nat) : Planner := ⟨id, []⟩

def size (p : Planner) : Nat := p.commands.length

/-- Whether an argument is a result of another planner. -/
def isForeign (p : Planner) : Value → Bool
  | .result h => h.command.planner != p.id
  | _         => false

/-- Appends a command.  Fails when an argument is a result of another planner. -/
def push (p : Planner) (c : Command) : Except PlanError CommandRef × Planner :=
  if c.call.args.any p.isForeign then (.error .foreignReturn, p)
  else (.ok ⟨p.id, p.size⟩, ⟨p.id, p.commands ++ [c]⟩)

/-- Appends a call.  There is a handle to its result when its function declares exactly one output. -/
def add (p : Planner) (call : Call) : Except PlanError (Option Handle) × Planner :=
  match p.push ⟨call, false⟩ with
  | (.error e, p') => (.error e, p')
  | (.ok c, p')    =>
    match call.function.outputs with
    | [out] => (.ok (some ⟨out.kind, c⟩), p')
    | _     => (.ok none, p')

/-- Appends a call whose output, a single `bytes[]`, replaces the whole table. -/
def replaceState (p : Planner) (call : Call) : Except PlanError CommandRef × Planner :=
  if call.function.outputTypes = [.bytesArray] then p.push ⟨call, true⟩
  else (.error (.invalidStateReplacement call.signature (AbiType.textAll call.function.outputTypes)), p)

end Planner
end CallPlan
