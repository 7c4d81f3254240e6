import CallPlan.Abi.Literal
import CallPlan.Interface.Basic
import CallPlan.Plan.Command
/-!
# Contracts and their calls

A contract is an interface at an address.  A call of one of its functions takes concrete values, which are encoded, and
symbolic ones, whose type must be exactly the declared one.
-/
namespace CallPlan

structure Contract where
  address : Address
  interface : Interface

/-- A function at an address. -/
structure BoundFunction where
  address : Address
  function : Function

inductive Arg where
  | token (value : Token)
  | value (value : Value)

namespace BoundFunction

def signature (b : BoundFunction) : String := b.function.signature

/-- The argument at a position, encoded or checked against the declared type. -/
def resolve (b : BoundFunction) (index : Nat) (p : Param) : Arg → Except ContractError Value
  | .token t =>
    match encodeLiteral p.kind t with
    | .ok bs   => .ok (.literal p.kind bs)
    | .error e => .error (.invalidArgument b.signature index e)
  | .value v =>
    if v.kind = p.kind then .ok v
    else .error (.typeMismatch b.signature index p.kind.text v.kind.text)

/-- The arguments from a position on; the first that is refused gives the error. -/
def resolveFrom (b : BoundFunction) (index : Nat) : List Param → List Arg → Except ContractError (List Value)
  | p :: ps, a :: as =>
    match b.resolve index p a with
    | .error e => .error e
    | .ok v    =>
      match b.resolveFrom (index + 1) ps as with
      | .error e => .error e
      | .ok vs   => .ok (v :: vs)
  | _,       _       => .ok []

/-- The call of the function with these arguments. -/
def call (b : BoundFunction) (args : List Arg) : Except ContractError Call :=
  if args.length ≠ b.function.inputs.length then
    .error (.arity b.signature b.function.inputs.length args.length)
  else
    match b.resolveFrom 0 b.function.inputs args with
    | .error e => .error e
    | .ok vs   => .ok ⟨b.address, b.function, vs⟩

end BoundFunction

namespace Contract

/-- Finds a function of the contract by signature or bare name. -/
def function (c : Contract) (key : String) : Except ContractError BoundFunction :=
  match c.interface.function key with
  | .error e => .error e
  | .ok f    => .ok ⟨c.address, f⟩

def call (c : Contract) (key : String) (args : List Arg) : Except ContractError Call :=
  match c.function key with
  | .error e => .error e
  | .ok b    => b.call args

end Contract
end CallPlan
