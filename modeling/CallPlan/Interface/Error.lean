import CallPlan.Abi.Error
import CallPlan.Json.Fault
import CallPlan.Text.Numeral
import CallPlan.Text.Split
/-!
# Why an interface or a call is refused
-/
namespace CallPlan

/-- What is wrong with the description of an interface. -/
inductive InterfaceFault where
  | namelessFunction
  | noAbiField
  | notAnInterface
deriving DecidableEq

def InterfaceFault.message : InterfaceFault → String
  | .namelessFunction => "function entry without a name"
  | .noAbiField       => "object has no `abi` field"
  | .notAnInterface   => "expected an ABI array or an artifact object"

inductive ContractError where
  /-- A call has another number of arguments than its function has inputs. -/
  | arity (function : String) (expected got : Nat)
  /-- A symbolic argument has another type than the input declares. -/
  | typeMismatch (function : String) (index : Nat) (expected found : String)
  /-- A concrete argument cannot be encoded as the input's type. -/
  | invalidArgument (function : String) (index : Nat) (source : AbiError)
  | duplicateSignature (signature : String)
  | unknownFunction (key : String)
  /-- A bare name that several functions have. -/
  | ambiguousName (name : String) (candidates : List String)
  | invalidInterface (fault : InterfaceFault)
  | abi (error : AbiError)
  /-- The description is no JSON, or JSON of another shape. -/
  | malformedJson (fault : Json.Fault)
deriving DecidableEq

open Text (decimalString)

/-- The wording of an error.  `json` words what is wrong with JSON. -/
def ContractError.message (json : Json.Fault → String) : ContractError → String
  | .arity f e g           =>
    "`" ++ f ++ "` expects " ++ decimalString e ++ " arguments, got " ++ decimalString g
  | .typeMismatch f i e g  =>
    "`" ++ f ++ "` argument " ++ decimalString i ++ ": expected " ++ e ++ ", got " ++ g
  | .invalidArgument f i e => "`" ++ f ++ "` argument " ++ decimalString i ++ ": " ++ e.message
  | .duplicateSignature s  => "duplicate function signature `" ++ s ++ "`"
  | .unknownFunction k     => "no function `" ++ k ++ "` in interface"
  | .ambiguousName n cs    =>
    "`" ++ n ++ "` is overloaded, use a full signature: "
      ++ String.ofList (Text.joinWith ", ".toList (cs.map String.toList))
  | .invalidInterface f    => "invalid interface: " ++ f.message
  | .abi e                 => e.message
  | .malformedJson f       => "json: " ++ json f

end CallPlan
