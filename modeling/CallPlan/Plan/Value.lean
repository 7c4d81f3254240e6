import CallPlan.Abi.AbiType.Basic
import CallPlan.Bytes.Basic
/-!
# Arguments of a planned call

An argument is a literal, whose bytes are known, the result of an earlier command, or the whole table of slots.  A command is
named by the planner that owns it and its position there.
-/
namespace CallPlan

/-- A command, by the identity of its planner and its position in it. -/
structure CommandRef where
  planner : Nat
  index : Nat
deriving DecidableEq

def CommandRef.text (c : CommandRef) : String := "#" ++ Text.decimalString c.index

/-- The result of a command, at a declared type. -/
structure Handle where
  kind : AbiType
  command : CommandRef
deriving DecidableEq

inductive Value where
  | literal (kind : AbiType) (bytes : Bytes)
  | result (handle : Handle)
  /-- The whole table, of type `bytes[]`. -/
  | state
deriving DecidableEq

namespace Value

/-- The declared type of an argument. -/
def kind : Value → AbiType
  | .literal ty _ => ty
  | .result h     => h.kind
  | .state        => .bytesArray

/-- Whether the argument is kept in its slot as a blob. -/
def isDynamic (v : Value) : Bool := v.kind.isDynamic

end Value
end CallPlan
