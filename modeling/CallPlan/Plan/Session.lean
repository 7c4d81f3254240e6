import CallPlan.Plan.Slots
/-!
# Several planners

A session holds planners, each at a position that never changes, and hands every new one an identity of its own.  A copy of
a planner keeps the identity, so that either accepts the results of the other.
-/
namespace CallPlan

structure Session where
  planners : List Planner := []
  /-- The identity of the next new planner. -/
  nextId : Nat := 0
deriving DecidableEq

namespace Session

def get? (s : Session) (k : Nat) : Option Planner := s.planners[k]?

/-- Opens an empty planner, and gives its position. -/
def openNew (s : Session) : Session × Nat := (⟨s.planners ++ [.empty s.nextId], s.nextId + 1⟩, s.planners.length)

/-- Copies the planner at a position, and gives the position of the copy. -/
def clone (s : Session) (k : Nat) : Option (Session × Nat) :=
  (s.get? k).map fun p => (⟨s.planners ++ [p], s.nextId⟩, s.planners.length)

/-- The session with another planner at a position. -/
def set (s : Session) (k : Nat) (p : Planner) : Session := { s with planners := s.planners.set k p }

/-- Appends a call to the planner at a position. -/
def add (s : Session) (k : Nat) (call : Call) : Option (Except PlanError (Option Handle) × Session) :=
  (s.get? k).map fun p => ((p.add call).1, s.set k (p.add call).2)

/-- Appends a call that replaces the table to the planner at a position. -/
def replaceState (s : Session) (k : Nat) (call : Call) : Option (Except PlanError CommandRef × Session) :=
  (s.get? k).map fun p => ((p.replaceState call).1, s.set k (p.replaceState call).2)

end Session
end CallPlan
