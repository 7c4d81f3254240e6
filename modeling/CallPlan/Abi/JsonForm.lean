import CallPlan.Abi.AbiType.Reader
import CallPlan.Abi.Address
import CallPlan.Json.Value
/-!
# Addresses and types in JSON

Both are written as JSON strings that hold their texts.
-/
namespace CallPlan

def Address.toJson (a : Address) : Json := .string a.text

def Address.ofJson? (j : Json) : Option Address :=
  match j.text? with
  | some s => (Address.ofText s).toOption
  | none   => none

def AbiType.toJson (t : AbiType) : Json := .string t.text

def AbiType.ofJson? (j : Json) : Option AbiType :=
  match j.text? with
  | some s => (AbiType.ofText s).toOption
  | none   => none

end CallPlan
